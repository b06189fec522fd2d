import NTux.Ext.Allocator
import NTux.Lib.Runs

/-!
# Runs of the allocators

A run is any sequence of allocations and of releases of blocks and inodes that earlier
allocations of the run returned.  From a consistent volume every call of it is right
(`AllocCallRight`) and leaves counters that are right: `allocators_right_along_run`.
The allocators look only at the groups whose descriptor lies in the first block of the
descriptor table, and fail when those are full (`alloc_block_fails_past_first_desc_block`).
-/

namespace NTux.Ext

open NTux.Lib NTux.Lib.Bytes

/-- The volume, the blocks and inodes returned so far, and those of them that have not
been released since. -/
structure AllocState where
  vol : Volume
  blocks : List Nat
  inodes : List Nat
  liveBlocks : List Nat
  liveInodes : List Nat

/-- A call. -/
inductive AllocAction
  | allocBlock
  | allocInode (isDir : Bool)
  | freeBlock (block : Nat)
  | freeInode (ino : Nat) (wasDir : Bool)

/-- Nothing has been allocated. -/
def allocStart (d : Volume) : AllocState := ⟨d, [], [], [], []⟩

/-- One call. -/
def allocStep (fs : ExtFs) (s : AllocState) : AllocAction → AllocState
  | .allocBlock =>
      match extAllocBlock fs s.vol with
      | none => s
      | some (x, d) => { s with vol := d, blocks := x :: s.blocks, liveBlocks := x :: s.liveBlocks }
  | .allocInode isDir =>
      match extAllocInode fs s.vol isDir with
      | none => s
      | some (i, d) => { s with vol := d, inodes := i :: s.inodes, liveInodes := i :: s.liveInodes }
  | .freeBlock x =>
      match extFreeBlock fs s.vol x with
      | none => s
      | some d => { s with vol := d, liveBlocks := s.liveBlocks.filter fun y => y ≠ x }
  | .freeInode i wasDir =>
      match extFreeInode fs s.vol i wasDir with
      | none => s
      | some d => { s with vol := d, liveInodes := s.liveInodes.filter fun j => j ≠ i }

/-- Only what an allocation returned is released. -/
def AllocCallAllowed (s : AllocState) : AllocAction → Prop
  | .freeBlock x => x ∈ s.blocks
  | .freeInode i _ => i ∈ s.inodes
  | _ => True

instance (s : AllocState) (a : AllocAction) : Decidable (AllocCallAllowed s a) := by
  cases a <;> unfold AllocCallAllowed <;> infer_instance

/-- The counters tell the number of clear bits. -/
structure CountersRight (fs : ExtFs) (d : Volume) : Prop where
  blocks : (pool fs d .block).Counted fs.blocksIn fs.groups
  inodes : (pool fs d .inode).Counted fs.inodesIn fs.groups

/-- What is allocated was not in use, and an allocation fails only when no bit is clear
in the groups `within`; a release succeeds.  The counters are right afterwards. -/
def AllocCallRight (fs : ExtFs) (within : Nat → Prop) (s : AllocState) (a : AllocAction) : Prop :=
  CountersRight fs (allocStep fs s a).vol ∧
    match a with
    | .allocBlock =>
        match extAllocBlock fs s.vol with
        | none => ∀ x, fs.HasBlock x → within (fs.groupOf x) → blockUsed fs s.vol x = true
        | some (x, _) => fs.HasBlock x ∧ blockUsed fs s.vol x = false ∧ x ∉ s.liveBlocks
    | .allocInode isDir =>
        match extAllocInode fs s.vol isDir with
        | none => ∀ i, 0 < i → i ≤ fs.inodesCount → within ((i - 1) / fs.inodesPerGroup) →
            inodeUsed fs s.vol i = true
        | some (i, _) => 0 < i ∧ i ≤ fs.inodesCount ∧ inodeUsed fs s.vol i = false ∧
            i ∉ s.liveInodes
    | .freeBlock x => (extFreeBlock fs s.vol x).isSome
    | .freeInode i wasDir => (extFreeInode fs s.vol i wasDir).isSome

/-- The invariant: what was returned may be released, and what has not been released is
marked. -/
structure AllocInv (fs : ExtFs) (s : AllocState) : Prop where
  consistent : Consistent fs s.vol
  blocks : ∀ x ∈ s.blocks, fs.HasBlock x ∧ fs.DescRead (fs.groupOf x) ∧ x ∉ metaBlocks fs s.vol
  inodes : ∀ i ∈ s.inodes, 0 < i ∧ i ≤ fs.inodesCount ∧
    fs.DescRead ((i - 1) / fs.inodesPerGroup) ∧ firstInode fs s.vol ≤ i
  liveBlocks : ∀ x ∈ s.liveBlocks, x ∈ s.blocks ∧ blockUsed fs s.vol x = true
  liveInodes : ∀ i ∈ s.liveInodes, i ∈ s.inodes ∧ inodeUsed fs s.vol i = true

/-! ## One step -/

section Step

variable {fs : ExtFs} {s : AllocState}

theorem allocStart_inv {d : Volume} (ok : Consistent fs d) : AllocInv fs (allocStart d) :=
  ⟨ok, by simp [allocStart], by simp [allocStart], by simp [allocStart], by simp [allocStart]⟩

namespace AllocInv

/-- The blocks that were returned may be released where the metadata has stayed in place. -/
theorem blocks_of_places {d : Volume} (inv : AllocInv fs s) (same : SamePlaces fs s.vol d) :
    ∀ x ∈ s.blocks, fs.HasBlock x ∧ fs.DescRead (fs.groupOf x) ∧ x ∉ metaBlocks fs d := by
  rw [same.metaBlocks_eq]
  exact inv.blocks

theorem inodes_of_places {d : Volume} (inv : AllocInv fs s) (same : SamePlaces fs s.vol d) :
    ∀ i ∈ s.inodes, 0 < i ∧ i ≤ fs.inodesCount ∧ fs.DescRead ((i - 1) / fs.inodesPerGroup) ∧
      firstInode fs d ≤ i := by
  rw [same.firstInode]
  exact inv.inodes

end AllocInv

theorem allocBlock_inv (inv : AllocInv fs s) : AllocInv fs (allocStep fs s .allocBlock) := by
  simp only [allocStep]
  cases eq : extAllocBlock fs s.vol with
  | none => exact inv
  | some result =>
      obtain ⟨x, d⟩ := result
      have new := extAllocBlock_ok inv.consistent eq
      refine ⟨new.consistent, fun y mem => ?_, inv.inodes_of_places new.places,
        fun y mem => ?_, fun i mem => ?_⟩
      · rcases List.mem_cons.1 mem with rfl | mem
        · refine ⟨new.has, new.read, ?_⟩
          rw [new.places.metaBlocks_eq]
          exact not_meta_of_free inv.consistent new.wasFree
        · exact inv.blocks_of_places new.places y mem
      · show _ ∧ blockUsed fs d y = true
        rcases List.mem_cons.1 mem with rfl | mem
        · exact ⟨List.mem_cons_self .., by rw [new.used y new.has, if_pos rfl]⟩
        · obtain ⟨returned, used⟩ := inv.liveBlocks y mem
          refine ⟨List.mem_cons_of_mem _ returned, ?_⟩
          rw [new.used y (inv.blocks y returned).1, used]
          exact ite_self _
      · obtain ⟨returned, used⟩ := inv.liveInodes i mem
        obtain ⟨pos, le, -⟩ := inv.inodes i returned
        exact ⟨returned, (new.inodes i pos le).trans used⟩

theorem allocInode_inv (inv : AllocInv fs s) (isDir : Bool) :
    AllocInv fs (allocStep fs s (.allocInode isDir)) := by
  simp only [allocStep]
  cases eq : extAllocInode fs s.vol isDir with
  | none => exact inv
  | some result =>
      obtain ⟨ino, d⟩ := result
      have new := extAllocInode_ok inv.consistent eq
      refine ⟨new.consistent, inv.blocks_of_places new.places, fun i mem => ?_,
        fun y mem => ?_, fun i mem => ?_⟩
      · rcases List.mem_cons.1 mem with rfl | mem
        · refine ⟨new.pos, new.le, new.read, ?_⟩
          rw [new.places.firstInode]
          exact new.notReserved
        · exact inv.inodes_of_places new.places i mem
      · obtain ⟨returned, used⟩ := inv.liveBlocks y mem
        exact ⟨returned, (new.blocks y (inv.blocks y returned).1).trans used⟩
      · show _ ∧ inodeUsed fs d i = true
        rcases List.mem_cons.1 mem with rfl | mem
        · exact ⟨List.mem_cons_self .., by rw [new.used i new.pos new.le, if_pos rfl]⟩
        · obtain ⟨returned, used⟩ := inv.liveInodes i mem
          obtain ⟨pos, le, -⟩ := inv.inodes i returned
          refine ⟨List.mem_cons_of_mem _ returned, ?_⟩
          rw [new.used i pos le, used]
          exact ite_self _

theorem freeBlock_inv (inv : AllocInv fs s) {x : Nat} (returned : x ∈ s.blocks) :
    AllocInv fs (allocStep fs s (.freeBlock x)) := by
  obtain ⟨has, read, notMeta⟩ := inv.blocks x returned
  obtain ⟨d, eq, marked⟩ := extFreeBlock_ok inv.consistent has read notMeta
  simp only [allocStep, eq]
  refine ⟨marked.consistent, inv.blocks_of_places marked.places,
    inv.inodes_of_places marked.places, fun y mem => ?_, fun i mem => ?_⟩
  · obtain ⟨live, ne⟩ := List.mem_filter.1 mem
    obtain ⟨was, used⟩ := inv.liveBlocks y live
    refine ⟨was, ?_⟩
    show blockUsed fs d y = true
    rw [marked.used y (inv.blocks y was).1, if_neg (by simpa using ne), used]
  · obtain ⟨was, used⟩ := inv.liveInodes i mem
    obtain ⟨pos, le, -⟩ := inv.inodes i was
    exact ⟨was, (marked.inodes i pos le).trans used⟩

theorem freeInode_inv (inv : AllocInv fs s) {ino : Nat} (returned : ino ∈ s.inodes)
    (wasDir : Bool) : AllocInv fs (allocStep fs s (.freeInode ino wasDir)) := by
  obtain ⟨pos, le, read, notReserved⟩ := inv.inodes ino returned
  obtain ⟨d, eq, marked⟩ :=
    extFreeInode_ok wasDir inv.consistent pos le read notReserved
  simp only [allocStep, eq]
  refine ⟨marked.consistent, inv.blocks_of_places marked.places,
    inv.inodes_of_places marked.places, fun y mem => ?_, fun i mem => ?_⟩
  · obtain ⟨was, used⟩ := inv.liveBlocks y mem
    exact ⟨was, (marked.blocks y (inv.blocks y was).1).trans used⟩
  · obtain ⟨live, ne⟩ := List.mem_filter.1 mem
    obtain ⟨was, used⟩ := inv.liveInodes i live
    obtain ⟨posI, leI, -⟩ := inv.inodes i was
    refine ⟨was, ?_⟩
    show inodeUsed fs d i = true
    rw [marked.used i posI leI, if_neg (by simpa using ne), used]

/-- **Every allowed call keeps the invariant.** -/
theorem allocStep_inv (inv : AllocInv fs s) {a : AllocAction} (allowed : AllocCallAllowed s a) :
    AllocInv fs (allocStep fs s a) := by
  cases a with
  | allocBlock => exact allocBlock_inv inv
  | allocInode isDir => exact allocInode_inv inv isDir
  | freeBlock x => exact freeBlock_inv inv allowed
  | freeInode i wasDir => exact freeInode_inv inv allowed wasDir

/-- A call is right wherever the invariant holds. -/
theorem allocCallRight_of_inv (inv : AllocInv fs s) {a : AllocAction}
    (allowed : AllocCallAllowed s a) : AllocCallRight fs fs.Searched s a := by
  have after := (allocStep_inv inv allowed).consistent
  refine ⟨⟨after.blocks, after.inodes⟩, ?_⟩
  cases a with
  | allocBlock =>
      dsimp only
      cases eq : extAllocBlock fs s.vol with
      | none => exact fun x has searched => extAllocBlock_none inv.consistent eq has searched
      | some result =>
          have new := extAllocBlock_ok inv.consistent eq
          refine ⟨new.has, new.wasFree, fun live => ?_⟩
          have used := (inv.liveBlocks _ live).2
          rw [new.wasFree] at used
          exact absurd used (by simp)
  | allocInode isDir =>
      dsimp only
      cases eq : extAllocInode fs s.vol isDir with
      | none =>
          exact fun i pos le searched => extAllocInode_none inv.consistent eq pos le searched
      | some result =>
          have new := extAllocInode_ok inv.consistent eq
          refine ⟨new.pos, new.le, new.wasFree, fun live => ?_⟩
          have used := (inv.liveInodes _ live).2
          rw [new.wasFree] at used
          exact absurd used (by simp)
  | freeBlock x =>
      obtain ⟨has, read, notMeta⟩ := inv.blocks x allowed
      obtain ⟨d, eq, -⟩ := extFreeBlock_ok inv.consistent has read notMeta
      simp [eq]
  | freeInode i wasDir =>
      obtain ⟨pos, le, read, notReserved⟩ := inv.inodes i allowed
      obtain ⟨d, eq, -⟩ := extFreeInode_ok wasDir inv.consistent pos le read notReserved
      simp [eq]

end Step

/-! ## Runs -/

/-- **Along every run the counters are right, no allocation returns an item in use, and
one fails only when the groups it looks at have no clear bit.** -/
theorem allocators_right_along_run (fs : ExtFs) (d : Volume) (as : List AllocAction)
    (ok : Consistent fs d) (allowed : AllSteps (allocStep fs) AllocCallAllowed (allocStart d) as) :
    AllSteps (allocStep fs) (AllocCallRight fs fs.Searched) (allocStart d) as :=
  AllSteps.of_invariant (fun _ _ inv call => allocStep_inv inv call)
    (fun _ _ inv call => allocCallRight_of_inv inv call) (allocStart_inv ok) allowed

/-! ## A volume of 33 groups -/

/-- 33 groups of 8 blocks and 8 inodes; the descriptor of the last group is in the second
block of the table. -/
def manyGroups : ExtFs where
  superSize := 204
  blockSize := 1024
  inodeSize := 128
  blocksPerGroup := 8
  inodesPerGroup := 8
  firstDataBlock := 1
  groupCount := 34
  blocksCount := 265
  inodesCount := 264
  rootInode := 2

/-- A descriptor of the volume. -/
def manyGroupsDesc (g o : Nat) : UInt8 :=
  if o = bgBlockBitmap then UInt8.ofNat (4 + 2 * g)
  else if o = bgInodeBitmap then UInt8.ofNat (5 + 2 * g)
  else if o = bgInodeTable then UInt8.ofNat (70 + g)
  else if o = bgFreeBlocks then (if g = 32 then 1 else 0)
  else if o = bgFreeInodes then (if g = 0 then 0 else if g = 1 then 6 else 8)
  else 0

/-- Every block but the last and every reserved inode is in use. -/
def manyGroupsVolume : Volume := fun x i =>
  if x = 1 then
    if i = sbFreeBlocks then 1 else if i = sbFreeInodes then 254
    else if i = sbFirstIno then 11 else 0
  else if x = 2 ∨ x = 3 then manyGroupsDesc ((x - 2) * 32 + i / 32) (i % 32)
  else if 4 ≤ x ∧ x < 70 ∧ i = 0 then
    if x % 2 = 0 then (if x = 68 then 127 else 255)
    else if x = 5 then 255 else if x = 7 then 3 else 0
  else 0

theorem manyGroups_consistent : Consistent manyGroups manyGroupsVolume where
  superSize := .inl rfl
  blockSize := .inl rfl
  inodeSize := by decide
  firstDataBlock := rfl
  blocksPerGroup := by decide
  inodesPerGroup := by decide
  blocksCount := by decide
  inodesCount := by decide
  groupCount := by decide
  distinct := by decide
  metaUsed := by
    unfold ExtFs.HasBlock
    decide
  reserved := by
    have first : firstInode manyGroups manyGroupsVolume = 11 := by decide
    have used : ∀ ino, ino < 11 → 0 < ino → inodeUsed manyGroups manyGroupsVolume ino = true := by
      decide
    rw [first]
    exact fun ino pos lt _ => used ino lt pos
  blocks := ⟨by decide, by decide⟩
  inodes := ⟨by decide, by decide⟩

/-- Two inodes are allocated, and one is released twice. -/
theorem allocators_right_many_groups :
    AllSteps (allocStep manyGroups) (AllocCallRight manyGroups manyGroups.Searched)
      (allocStart manyGroupsVolume)
      [.allocInode true, .allocInode false, .freeInode 11 true, .freeInode 11 true] :=
  allocators_right_along_run manyGroups manyGroupsVolume _ manyGroups_consistent
    (by decide)

/-- The last block of the volume is free, and no block can be allocated. -/
theorem alloc_block_fails_past_first_desc_block :
    ¬ ∀ (fs : ExtFs) (d : Volume) (as : List AllocAction), Consistent fs d →
      AllSteps (allocStep fs) AllocCallAllowed (allocStart d) as →
        AllSteps (allocStep fs) (AllocCallRight fs fun _ => True) (allocStart d) as := by
  intro always
  obtain ⟨⟨-, right⟩, -⟩ :=
    always manyGroups manyGroupsVolume [.allocBlock] manyGroups_consistent ⟨trivial, trivial⟩
  have fails : (extAllocBlock manyGroups manyGroupsVolume).isNone = true := by decide
  have free : blockUsed manyGroups manyGroupsVolume 264 = false := by decide
  have used : blockUsed manyGroups manyGroupsVolume 264 = true := by
    dsimp only [allocStart] at right
    rw [Option.isNone_iff_eq_none.1 fails] at right
    exact right 264 ⟨by decide, by decide⟩ trivial
  rw [free] at used
  exact absurd used (by simp)

end NTux.Ext
