import NTux.Ext.FileRoundTrip

/-!
# A write that runs out of blocks

`ext2_create_or_write_file` releases the blocks of the file before it allocates new ones,
and writes the inode when all is done.  A write that runs out of blocks on the way leaves
the old inode on the disk, the blocks it points to overwritten, and the blocks taken since
marked and unreferenced (`write_failure_overwrites`).  The failure is harmless where
nothing has been released or taken by then: `write_failure_atomic`.
-/

namespace NTux.Ext

open NTux.Lib NTux.Lib.Bytes

variable {fs : ExtFs} {d d' : Volume}

/-- What an inode on the disk refers to. -/
def inodeRefs (fs : ExtFs) (d : Volume) (ino : Nat) : List Nat :=
  match extReadInode fs d ino with
  | none => []
  | some inode => fileRefs fs d inode

/-- An inode in use refers to the block. -/
def Referenced (fs : ExtFs) (d : Volume) (x : Nat) : Prop :=
  ∃ ino, fs.HasInode ino ∧ inodeUsed fs d ino = true ∧ x ∈ inodeRefs fs d ino

/-- The data blocks in use are those that the inodes in use refer to, each once. -/
structure WellReferenced (fs : ExtFs) (d : Volume) : Prop where
  data : ∀ ino, fs.HasInode ino → inodeUsed fs d ino = true →
    ∀ x ∈ inodeRefs fs d ino, DataBlock fs d x ∧ blockUsed fs d x = true
  once : ∀ ino, fs.HasInode ino → inodeUsed fs d ino = true → (inodeRefs fs d ino).Nodup ∧
    ∀ ino', fs.HasInode ino' → inodeUsed fs d ino' = true → ino' ≠ ino →
      List.Disjoint (inodeRefs fs d ino) (inodeRefs fs d ino')
  all : ∀ x, DataBlock fs d x → blockUsed fs d x = true → Referenced fs d x

/-- The write cleared the inode and then found no free block. -/
def RanOut (fs : ExtFs) (d : Volume) (inode data : Bytes) (len : Nat) (d' : Volume) : Prop :=
  rd16 inode inMode &&& sIfReg ≠ 0 ∧ len ≠ 0 ∧ fs.needed len ≤ fs.maxBlocks ∧
    ∃ d₁ inode₁, extInodeClearData fs d inode = .ok (d₁, inode₁) ∧
      extFillInode fs (bufferReader data) len d₁ inode₁ = .error d'

/-- What is to be shown of a write that runs out. -/
theorem RanOut.of_fails (ino : Nat) {inode data : Bytes} {len : Nat}
    (reg : rd16 inode inMode &&& sIfReg ≠ 0) (some : len ≠ 0) (most : fs.needed len ≤ fs.maxBlocks)
    (clears : (extInodeClearData fs d inode).isOk = true)
    (fails : (extInodeWriteData fs d inode data len).isOk = false) :
    RanOut fs d inode data len (volumeAfter (extWriteFile fs d ino inode data len)) := by
  refine ⟨reg, some, most, ?_⟩
  unfold extInodeWriteData extInodeWriteDataReader at fails
  unfold extWriteFile extWriteFileReader extInodeWriteDataReader
  cases clear : extInodeClearData fs d inode with
  | error d₁ => exact absurd clears (by simp [clear, Except.isOk, Except.toBool])
  | ok r =>
      refine ⟨r.1, r.2, rfl, ?_⟩
      simp only [clear, bind, Except.bind, if_neg some, if_neg (Nat.not_lt.2 most)] at fails ⊢
      cases fill : extFillInode fs (bufferReader data) len r.1 r.2 with
      | ok r' => exact absurd fails (by simp [fill, Except.isOk, Except.toBool])
      | error d' => rw [if_neg reg]; rfl

/-- The failure has done no harm: the file is read as before, and the blocks in use are
those that are referenced. -/
structure FailureAtomic (fs : ExtFs) (d d' : Volume) (ino : Nat) (inode : Bytes) : Prop where
  onDisk : extReadInode fs d' ino = extReadInode fs d ino
  content : ∀ outCap, extReadFileData fs d' inode outCap = extReadFileData fs d inode outCap
  noneFree : ∀ x, Referenced fs d' x → blockUsed fs d' x = true
  noneLost : ∀ x, DataBlock fs d' x → blockUsed fs d' x = true → Referenced fs d' x

/-! ## What is read does not change -/

theorem extReadBlocks_congr {p p' : Nat → Nat} (n j : Nat) (r : Reading)
    (ptrs : ∀ i, j ≤ i → i < j + n → p' i = p i)
    (same : ∀ x ∈ livePtrs p j n, d' x = d x) :
    extReadBlocks fs d' p' n j r = extReadBlocks fs d p n j r := by
  induction n generalizing j r with
  | zero => rfl
  | succ n ih =>
      have ptr := ptrs j (by omega) (by omega)
      rw [livePtrs_succ] at same
      unfold extReadBlocks
      rw [ptr]
      split
      · rfl
      next go =>
        rw [not_or] at go
        rw [if_neg go.2] at same
        rw [same (p j) (by simp)]
        exact ih (j + 1) _ (fun i le lt => ptrs i (by omega) (by omega)) fun x mem =>
          same x (List.mem_append_right _ mem)

theorem extReadIndirect_congr {p : Nat → Nat} (n i : Nat) (r : Reading)
    (same : ∀ x ∈ (livePtrs p i n).flatMap (indirectRefs fs d), d' x = d x) :
    extReadIndirect fs d' p n i r = extReadIndirect fs d p n i r := by
  induction n generalizing i r with
  | zero => rfl
  | succ n ih =>
      rw [livePtrs_succ] at same
      unfold extReadIndirect
      split
      · rfl
      next go =>
        rw [not_or] at go
        rw [if_neg go.2, List.flatMap_append, List.flatMap_singleton] at same
        have top : d' (p i) = d (p i) :=
          same _ (List.mem_append_left _ (List.mem_append_right _ (List.mem_singleton.2 rfl)))
        rw [extReadBlocks_congr (d := d) (p := fun j => rd32 (d (p i)) (4 * j)) fs.ptrs 0 r
          (fun j _ _ => by rw [top]) fun x mem =>
            same x (List.mem_append_left _ (List.mem_append_left _ mem))]
        exact ih (i + 1) _ fun x mem => same x (List.mem_append_right _ mem)

/-- A file is read from the blocks its inode refers to. -/
theorem extReadFileData_congr {inode : Bytes} {outCap : Nat}
    (same : ∀ x ∈ fileRefs fs d inode, d' x = d x) :
    extReadFileData fs d' inode outCap = extReadFileData fs d inode outCap := by
  unfold fileRefs at same
  have direct : ∀ r, extReadBlocks fs d' (inodePtr inode) 12 0 r =
      extReadBlocks fs d (inodePtr inode) 12 0 r := fun r =>
    extReadBlocks_congr 12 0 r (fun _ _ _ => rfl) fun x mem =>
      same x (List.mem_append_left _ mem)
  have single : inodePtr inode 12 ≠ 0 → ∀ r,
      extReadBlocks fs d' (fun j => rd32 (d' (inodePtr inode 12)) (4 * j)) fs.ptrs 0 r =
        extReadBlocks fs d (fun j => rd32 (d (inodePtr inode 12)) (4 * j)) fs.ptrs 0 r := by
    intro set r
    have inner : ∀ x ∈ indirectRefs fs d (inodePtr inode 12), d' x = d x := fun x mem => by
      refine same x (List.mem_append_right _ (List.mem_append_left _ ?_))
      unfold singlePart
      rwa [if_neg set]
    have top := inner _ (List.mem_append_right _ (List.mem_singleton.2 rfl))
    exact extReadBlocks_congr fs.ptrs 0 r (fun j _ _ => by rw [top]) fun x mem =>
      inner x (List.mem_append_left _ mem)
  have double : inodePtr inode 13 ≠ 0 → ∀ r,
      extReadIndirect fs d' (fun i => rd32 (d' (inodePtr inode 13)) (4 * i)) fs.ptrs 0 r =
        extReadIndirect fs d (fun i => rd32 (d (inodePtr inode 13)) (4 * i)) fs.ptrs 0 r := by
    intro set r
    have inner : ∀ x ∈ doubleRefs fs d (inodePtr inode 13), d' x = d x := fun x mem => by
      refine same x (List.mem_append_right _ (List.mem_append_right _ ?_))
      unfold doublePart
      rwa [if_neg set]
    rw [inner _ (List.mem_append_right _ (List.mem_singleton.2 rfl))]
    exact extReadIndirect_congr fs.ptrs 0 r fun x mem => inner x (List.mem_append_left _ mem)
  unfold extReadFileData
  dsimp only
  split
  · rfl
  · rw [direct]
    generalize extReadBlocks fs d (inodePtr inode) 12 0 ⟨rd32 inode inSize, []⟩ = r₁
    have second : (if r₁.remain ≠ 0 ∧ inodePtr inode 12 ≠ 0 then
        extReadBlocks fs d' (fun j => rd32 (d' (inodePtr inode 12)) (4 * j)) fs.ptrs 0 r₁
        else r₁) = if r₁.remain ≠ 0 ∧ inodePtr inode 12 ≠ 0 then
        extReadBlocks fs d (fun j => rd32 (d (inodePtr inode 12)) (4 * j)) fs.ptrs 0 r₁
        else r₁ := by
      split
      next both => exact single both.2 r₁
      · rfl
    rw [second]
    generalize (if r₁.remain ≠ 0 ∧ inodePtr inode 12 ≠ 0 then
        extReadBlocks fs d (fun j => rd32 (d (inodePtr inode 12)) (4 * j)) fs.ptrs 0 r₁
        else r₁) = r₂
    have third : (if r₂.remain ≠ 0 ∧ inodePtr inode 13 ≠ 0 then
        extReadIndirect fs d' (fun i => rd32 (d' (inodePtr inode 13)) (4 * i)) fs.ptrs 0 r₂
        else r₂) = if r₂.remain ≠ 0 ∧ inodePtr inode 13 ≠ 0 then
        extReadIndirect fs d (fun i => rd32 (d (inodePtr inode 13)) (4 * i)) fs.ptrs 0 r₂
        else r₂ := by
      split
      next both => exact double both.2 r₂
      · rfl
    rw [third]

/-! ## The failure -/

section Failure

variable {ino len : Nat} {inode data : Bytes}

/-- Where no block can be allocated, nothing is. -/
theorem extFillInode_of_none {reader : Reader} (none : extAllocBlock fs d = none)
    (fill : extFillInode fs reader len d inode = .error d') : d' = d := by
  unfold extFillInode at fill
  dsimp only at fill
  generalize fs.needed len = needed at fill
  cases needed with
  | zero => exact absurd fill (by
      simp [extFillBlocks, extFillSinglePart, extFillDoublePart, bind, Except.bind])
  | succ n =>
      rw [show min (n + 1) 12 = min n 11 + 1 by omega] at fill
      unfold extFillBlocks at fill
      simp only [none, orFail, bind, Except.bind, Except.error.injEq] at fill
      exact fill.symm

/-- A write that runs out has released the blocks of the file, and taken others until none
was left. -/
theorem RanOut.spec (ok : Consistent fs d) (refs : ∀ x ∈ fileRefs fs d inode, DataBlock fs d x)
    (ranOut : RanOut fs d inode data len d') :
    ∃ d₁ part, Released fs d (fileRefs fs d inode) d₁ ∧ Grown fs d₁ part d' ∧
      extAllocBlock fs d' = none ∧ (extAllocBlock fs d₁ = none → d' = d₁) := by
  obtain ⟨-, -, -, d₁, inode₁, clear, fill⟩ := ranOut
  have released := (extInodeClearData_releases ok refs).1.of_ok clear
  have pos : 0 < fs.ptrs := by
    unfold ExtFs.ptrs
    rcases ok.blockSize with eq | eq | eq <;> omega
  have fills := extFillInode_fills (bufferReader_supplies data len) pos inode₁
    released.consistent
  rw [fill] at fills
  obtain ⟨part, grown, stuck⟩ := fills
  refine ⟨d₁, part, released, grown, ?_, fun none => ?_⟩
  · rcases stuck with none | ⟨off, n, fails⟩
    · exact none
    · exact absurd fails (by simp [bufferReader])
  · exact extFillInode_of_none none fill

/-- The file had no blocks, and what has been taken was free. -/
structure Undisturbed (fs : ExtFs) (d d' : Volume) : Prop where
  places : SamePlaces fs d d'
  inodes : ∀ ino, fs.HasInode ino → inodeUsed fs d' ino = inodeUsed fs d ino
  used : ∀ x, fs.HasBlock x → blockUsed fs d x = true → blockUsed fs d' x = true
  same : ∀ x, x ∉ mapBlocks fs d → (fs.HasBlock x → blockUsed fs d x = true) → d' x = d x

theorem undisturbed {d₁ : Volume} {part : List Nat} (released : Released fs d [] d₁)
    (grown : Grown fs d₁ part d') : Undisturbed fs d d' where
  places := released.places.trans grown.places
  inodes ino has := (grown.inodes ino has.1 has.2).trans (released.inodes ino has.1 has.2)
  used x has used := (grown.used x has).2 (.inl ((released.used x has).2 ⟨used, by simp⟩))
  same x off used := by
    rw [grown.frame x (by rwa [released.places.mapBlocks_eq]) fun mem => ?_, released.frame x off]
    obtain ⟨has, free⟩ := grown.fresh x mem
    rw [(released.used x has).2 ⟨used has, by simp⟩] at free
    exact absurd free (by simp)

namespace Undisturbed

variable (still : Undisturbed fs d d')

include still

theorem readInode (ok : Consistent fs d) (ok' : Consistent fs d') (has : fs.HasInode ino) :
    extReadInode fs d' ino = extReadInode fs d ino := by
  have mem := inodeBlock_mem (d := d) ok.toGeometry has
  rw [extReadInode_eq ok has, extReadInode_eq ok' has, still.places.inodeBlock_eq ok.toGeometry has,
    still.same _ (inodeBlock_not_map ok has) fun _ =>
      (ok.metaUsed _ (List.mem_append_right _ mem)).2]

/-- The blocks of the files are kept, -/
theorem keeps (well : WellReferenced fs d) (has : fs.HasInode ino)
    (used : inodeUsed fs d ino = true) {x : Nat} (mem : x ∈ inodeRefs fs d ino) : d' x = d x :=
  have ⟨data, used⟩ := well.data ino has used x mem
  still.same x data.not_map fun _ => used

/-- and so is what the inodes refer to. -/
theorem inodeRefs_eq (ok : Consistent fs d) (ok' : Consistent fs d') (well : WellReferenced fs d)
    (has : fs.HasInode ino) (used : inodeUsed fs d ino = true) :
    inodeRefs fs d' ino = inodeRefs fs d ino := by
  have keeps := fun x => still.keeps well has used (x := x)
  unfold inodeRefs at keeps ⊢
  rw [still.readInode ok ok' has]
  cases eq : extReadInode fs d ino with
  | none => rfl
  | some inode =>
      rw [eq] at keeps
      exact fileRefs_congr (fun _ _ => rfl) keeps

theorem referenced_iff (ok : Consistent fs d) (ok' : Consistent fs d')
    (well : WellReferenced fs d) (x : Nat) : Referenced fs d' x ↔ Referenced fs d x := by
  refine exists_congr fun ino => and_congr_right fun has => ?_
  rw [still.inodes ino has]
  refine and_congr_right fun used => ?_
  rw [still.inodeRefs_eq ok ok' well has used]

end Undisturbed

/-- **Running out of blocks is harmless to a file without blocks exactly when there was
none to take.** -/
theorem write_failure_atomic (fs : ExtFs) (d d' : Volume) (ino : Nat) (inode data : Bytes)
    (len : Nat) (ok : Consistent fs d) (well : WellReferenced fs d) (has : fs.HasInode ino)
    (onDisk : extReadInode fs d ino = some inode)
    (ranOut : RanOut fs d inode data len d') (empty : fileRefs fs d inode = []) :
    FailureAtomic fs d d' ino inode ↔
      ∀ x, fs.HasBlock x → fs.Searched (fs.groupOf x) → blockUsed fs d x = true := by
  have refs : inodeRefs fs d ino = fileRefs fs d inode := by
    unfold inodeRefs
    rw [onDisk]
  obtain ⟨d₁, part, released, grown, stuck, none⟩ := ranOut.spec ok (by simp [empty])
  rw [empty] at released
  have still := undisturbed released grown
  have ok' := grown.consistent
  constructor
  · -- a block that was free is used now, and nobody refers to it
    intro atomic x hasX searched
    by_contra free
    have data := dataBlock_of_free ok hasX (by simpa using free)
    obtain ⟨ino', has', used', mem⟩ := (still.referenced_iff ok ok' well x).1
      (atomic.noneLost x (still.places.dataBlock data) (extAllocBlock_none ok' stuck hasX searched))
    exact free (well.data ino' has' used' x mem).2
  · intro full
    have same : d' = d₁ := by
      refine none ?_
      by_contra some
      obtain ⟨⟨x, d₂⟩, eq⟩ := Option.ne_none_iff_exists'.1 some
      have allocated := extAllocBlock_ok released.consistent eq
      have before := full x allocated.has (extAllocBlock_searched released.consistent eq)
      have free := allocated.wasFree
      rw [(released.used x allocated.has).2 ⟨before, by simp⟩] at free
      exact absurd free (by simp)
    subst same
    refine ⟨still.readInode ok ok' has, fun outCap => ?_, fun x referenced => ?_,
      fun x data used => ?_⟩
    · exact extReadFileData_congr (by simp [empty])
    · obtain ⟨ino', has', used', mem⟩ := (still.referenced_iff ok ok' well x).1 referenced
      obtain ⟨data, used⟩ := well.data ino' has' used' x mem
      exact still.used x data.1 used
    · refine (still.referenced_iff ok ok' well x).2 (well.all x ?_ ?_)
      · exact ⟨data.1, by rw [← still.places.metaBlocks_eq]; exact data.2⟩
      · exact ((released.used x data.1).1 used).1

end Failure

/-! ## A volume with a block or two -/

/-- One group of at most 8 blocks and 16 inodes. -/
def tinyFs (blocks : Nat) : ExtFs :=
  { smallFs 204 with
    blocksPerGroup := 8
    blocksCount := blocks
    groupCount := (blocks + 7) % 2 ^ 32 / 8 }

/-- The file of inode 11 has three bytes in block 7, and the file of inode 12 has none.  The
block 8 is free if it is there. -/
def tinyVolume (blocks : Nat) : Volume := fun x i =>
  if x = 1 then
    if i = sbFreeBlocks then UInt8.ofNat (blocks - 8) else if i = sbFreeInodes then 4
    else if i = sbFirstIno then 11 else 0
  else if x = 2 then
    if i = bgBlockBitmap then 3 else if i = bgInodeBitmap then 4 else if i = bgInodeTable then 5
    else if i = bgFreeBlocks then UInt8.ofNat (blocks - 8) else if i = bgFreeInodes then 4 else 0
  else if x = 3 then (if i = 0 then 127 else 0)
  else if x = 4 then (if i = 0 then 255 else if i = 1 then 15 else 0)
  else if x = 6 then
    if i = 257 then 0x80 else if i = 260 then 3 else if i = 284 then 2 else if i = 296 then 7
    else if i = 385 then 0x80 else 0
  else if x = 7 then (if i < 3 then 65 else 0)
  else 0

/-- The inode 11, and the inode 12. -/
def tinyInode (blocks ino : Nat) : Bytes := fun i => tinyVolume blocks 6 (128 * (ino - 9) + i)

theorem tiny_reserved {blocks : Nat} (size : blocks = 8 ∨ blocks = 9) :
    firstInode (tinyFs blocks) (tinyVolume blocks) = 11 ∧ ∀ ino, ino < 11 → 0 < ino →
      inodeUsed (tinyFs blocks) (tinyVolume blocks) ino = true := by
  rcases size with rfl | rfl <;> decide

theorem tiny_consistent {blocks : Nat} (size : blocks = 8 ∨ blocks = 9) :
    Consistent (tinyFs blocks) (tinyVolume blocks) := by
  obtain ⟨first, used⟩ := tiny_reserved size
  have reserved : ∀ ino, 0 < ino → ino < firstInode (tinyFs blocks) (tinyVolume blocks) →
      ino ≤ (tinyFs blocks).inodesCount →
      inodeUsed (tinyFs blocks) (tinyVolume blocks) ino = true := by
    rw [first]
    exact fun ino pos lt _ => used ino lt pos
  rcases size with rfl | rfl <;>
    exact {
      superSize := by decide
      blockSize := .inl rfl
      inodeSize := by decide
      firstDataBlock := rfl
      blocksPerGroup := by decide
      inodesPerGroup := by decide
      blocksCount := by decide
      inodesCount := by decide
      groupCount := by decide
      distinct := by decide
      metaUsed := by
        unfold ExtFs.HasBlock
        decide
      reserved := reserved
      blocks := ⟨by decide, by decide⟩
      inodes := ⟨by decide, by decide⟩ }

/-- The inode 11 refers to the block 7, and no other to any. -/
theorem tiny_refs {blocks : Nat} (size : blocks = 8 ∨ blocks = 9) {ino : Nat}
    (has : (tinyFs blocks).HasInode ino) :
    inodeRefs (tinyFs blocks) (tinyVolume blocks) ino = if ino = 11 then [7] else [] := by
  have all : ∀ ino, ino < 17 → 0 < ino →
      inodeRefs (tinyFs blocks) (tinyVolume blocks) ino = if ino = 11 then [7] else [] := by
    rcases size with rfl | rfl <;> decide
  refine all ino ?_ has.1
  have le := has.2
  rcases size with rfl | rfl <;> exact Nat.lt_succ_of_le le

theorem tiny_block {blocks : Nat} (size : blocks = 8 ∨ blocks = 9) :
    DataBlock (tinyFs blocks) (tinyVolume blocks) 7 ∧
      blockUsed (tinyFs blocks) (tinyVolume blocks) 7 = true := by
  unfold DataBlock ExtFs.HasBlock
  rcases size with rfl | rfl <;> decide

theorem tiny_used {blocks : Nat} (size : blocks = 8 ∨ blocks = 9) {x : Nat}
    (data : DataBlock (tinyFs blocks) (tinyVolume blocks) x)
    (used : blockUsed (tinyFs blocks) (tinyVolume blocks) x = true) : x = 7 := by
  have all : ∀ x, x < blocks → 0 < x → x ∉ metaBlocks (tinyFs blocks) (tinyVolume blocks) →
      blockUsed (tinyFs blocks) (tinyVolume blocks) x = true → x = 7 := by
    rcases size with rfl | rfl <;> decide
  exact all x data.1.2 data.1.1 data.2 used

theorem tiny_wellReferenced {blocks : Nat} (size : blocks = 8 ∨ blocks = 9) :
    WellReferenced (tinyFs blocks) (tinyVolume blocks) where
  data ino has _ x mem := by
    rw [tiny_refs size has] at mem
    split at mem
    · obtain rfl := List.mem_singleton.1 mem
      exact tiny_block size
    · exact absurd mem (by simp)
  once ino has _ := by
    rw [tiny_refs size has]
    refine ⟨by split <;> simp, fun ino' has' _ ne => ?_⟩
    rw [tiny_refs size has']
    split
    · rw [if_neg (by omega)]
      exact List.disjoint_nil_right _
    · exact List.disjoint_nil_left _
  all x data used := by
    obtain rfl := tiny_used size data used
    have has : (tinyFs blocks).HasInode 11 := by
      unfold ExtFs.HasInode
      rcases size with rfl | rfl <;> decide
    refine ⟨11, has, ?_, ?_⟩
    · rcases size with rfl | rfl <;> decide
    · rw [tiny_refs size has]
      exact List.mem_singleton.2 rfl

/-- No block is left, and five bytes are written to the file without blocks. -/
theorem write_failure_atomic_full :
    FailureAtomic (tinyFs 8) (tinyVolume 8) (volumeAfter (extWriteFile (tinyFs 8) (tinyVolume 8) 12
        (tinyInode 8 12) (fun _ => 66) 5)) 12 (tinyInode 8 12) ↔
      ∀ x, (tinyFs 8).HasBlock x → (tinyFs 8).Searched ((tinyFs 8).groupOf x) →
        blockUsed (tinyFs 8) (tinyVolume 8) x = true :=
  write_failure_atomic (tinyFs 8) (tinyVolume 8) _ 12 (tinyInode 8 12) (fun _ => 66) 5
    (tiny_consistent (.inl rfl)) (tiny_wellReferenced (.inl rfl)) (by unfold ExtFs.HasInode; decide)
    (by rw [extReadInode_eq (tiny_consistent (.inl rfl)) (by unfold ExtFs.HasInode; decide)]; rfl)
    (.of_fails 12 (by decide) (by decide) (by decide) (by decide)
      (by decide))
    (by decide)

/-- Two blocks can be had, and three are needed: the file is read with the new bytes. -/
theorem write_failure_overwrites :
    ¬ ∀ (fs : ExtFs) (d d' : Volume) (ino : Nat) (inode data : Bytes) (len : Nat),
      Consistent fs d → WellReferenced fs d → fs.HasInode ino → inodeUsed fs d ino = true →
      extReadInode fs d ino = some inode → RanOut fs d inode data len d' →
      FailureAtomic fs d d' ino inode := by
  intro always
  have atomic := always (tinyFs 9) (tinyVolume 9) _ 11 (tinyInode 9 11) (fun _ => 66) 2500
    (tiny_consistent (.inr rfl)) (tiny_wellReferenced (.inr rfl))
    (by unfold ExtFs.HasInode; decide) (by decide)
    (by rw [extReadInode_eq (tiny_consistent (.inr rfl)) (by unfold ExtFs.HasInode; decide)]; rfl)
    (.of_fails 11 (by decide) (by decide) (by decide) (by decide)
      (by decide +kernel))
  exact absurd (atomic.content 16) (by decide +kernel)

end NTux.Ext
