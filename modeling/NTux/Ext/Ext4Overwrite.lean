import NTux.Ext.FileRoundTrip

/-!
# Overwriting a file with extents

`ext4.c` reads inodes that map their data by extents, and writes inodes that point to
their blocks.  Between the two it clears the inode by `ext4_extent_init`, which leaves
an extent header in the first words of `block`; writing the data fills the words from
the first on.  A file of one block leaves the second word of the header where a pointer
is read later.

`ext4_overwrite_iff` says for which lengths the pointers are those of the new blocks.
-/

namespace NTux.Ext

open NTux.Lib NTux.Lib.Bytes

variable {fs : ExtFs} {d d' : Volume} {data : Bytes} {len N : Nat} {inode : Bytes}

/-! ## Extents -/

/-- `EXT4_EXTENTS_FL`. -/
def ext4ExtentsFl : Nat := 0x00080000

/-- `EXT4_EXT_MAGIC`. -/
def ext4ExtMagic : Nat := 0xF30A

/-- `ext4_inode_uses_extents`. -/
def ext4InodeUsesExtents (inode : Bytes) : Bool := rd32 inode inFlags &&& ext4ExtentsFl ≠ 0

/-- The offsets of the fields of the extent header in the inode. -/
def ehMagic : Nat := inBlock

@[inherit_doc ehMagic] def ehEntries : Nat := inBlock + 2
@[inherit_doc ehMagic] def ehMax : Nat := inBlock + 4
@[inherit_doc ehMagic] def ehDepth : Nat := inBlock + 6
@[inherit_doc ehMagic] def ehGeneration : Nat := inBlock + 8

/-- The offset of an extent in the inode. -/
def extentAt (i : Nat) : Nat := inBlock + 12 + 12 * i

/-- `ee_len` without its top bit. -/
def eeLen (inode : Bytes) (i : Nat) : Nat := rd16 inode (extentAt i + 4) % 2 ^ 15

/-- `ee_start_hi` and `ee_start_lo`. -/
def eeStart (inode : Bytes) (i : Nat) : Nat :=
  rd16 inode (extentAt i + 6) * 2 ^ 32 + rd32 inode (extentAt i + 8)

/-- The blocks of the extents, in order. -/
def extentBlocks (inode : Bytes) : List Nat :=
  (List.range (rd16 inode ehEntries)).flatMap fun i =>
    (List.range (eeLen inode i)).map fun j => (eeStart inode i + j) % 2 ^ 32

/-- `ext4_extent_init`. -/
def ext4ExtentInit (inode : Bytes) : Bytes :=
  let inode := splice inode inBlock 60 fun _ => 0
  let inode := wr16 inode ehMagic ext4ExtMagic
  let inode := wr16 inode ehEntries 0
  let inode := wr16 inode ehMax 4
  let inode := wr16 inode ehDepth 0
  wr32 inode ehGeneration 0

/-- Release blocks, one after the other. -/
def ext4FreeBlocks (fs : ExtFs) : List Nat → Volume → Except Volume Volume
  | [], d => .ok d
  | b :: bs, d => do
      let d' ← orFail d (extFreeBlock fs d b)
      ext4FreeBlocks fs bs d'

/-- `ext4_inode_clear_data`. -/
def ext4InodeClearData (fs : ExtFs) (d : Volume) (inode : Bytes) :
    Except Volume (Volume × Bytes) :=
  if ext4InodeUsesExtents inode then
    if rd16 inode ehMagic ≠ ext4ExtMagic ∨ rd16 inode ehDepth ≠ 0 then .error d
    else do
      let d' ← ext4FreeBlocks fs (extentBlocks inode) d
      .ok (d', setSize (ext4ExtentInit inode) 0 0)
  else extInodeClearData fs d inode

/-- `inode->flags &= ~EXT4_EXTENTS_FL`. -/
def clearExtentsFlag (inode : Bytes) : Bytes :=
  wr32 inode inFlags (rd32 inode inFlags &&& (0xFFFFFFFF ^^^ ext4ExtentsFl))

/-- `ext4_inode_write_data_reader` with a reader that is there. -/
def ext4InodeWriteDataReader (fs : ExtFs) (d : Volume) (inode : Bytes) (len : Nat)
    (reader : Reader) : Except Volume (Volume × Bytes) := do
  let (d, inode) ← ext4InodeClearData fs d inode
  if len = 0 then .ok (d, setSize inode 0 0)
  else if fs.maxBlocks < fs.needed len then .error d
  else extFillInode fs reader len d (clearExtentsFlag inode)

/-- What `ext4_create_or_write_file_reader` does with an inode it has found. -/
def ext4WriteFileReader (fs : ExtFs) (d : Volume) (ino : Nat) (inode : Bytes) (len : Nat)
    (reader : Reader) : Except Volume Volume :=
  if rd16 inode inMode &&& sIfReg = 0 then .error d
  else do
    let (d, inode) ← ext4InodeWriteDataReader fs d inode len reader
    orFail d (extWriteInode fs d ino inode)

/-- What `ext4_create_or_write_file` does with an inode it has found. -/
def ext4WriteFile (fs : ExtFs) (d : Volume) (ino : Nat) (inode data : Bytes) (len : Nat) :
    Except Volume Volume :=
  ext4WriteFileReader fs d ino inode len (bufferReader data)

/-- The data of the inode is mapped by a list of extents in the inode. -/
structure ExtentMapped (fs : ExtFs) (d : Volume) (inode : Bytes) : Prop where
  uses : ext4InodeUsesExtents inode = true
  magic : rd16 inode ehMagic = ext4ExtMagic
  depth : rd16 inode ehDepth = 0
  entries : rd16 inode ehEntries ≤ 4
  blocks : ∀ x ∈ extentBlocks inode, DataBlock fs d x

/-- The blocks the driver takes for those of the file. -/
def ext4Refs (fs : ExtFs) (d : Volume) (inode : Bytes) : List Nat :=
  if ext4InodeUsesExtents inode then extentBlocks inode else fileRefs fs d inode

/-! ## What an overwrite should do -/

/-- The pointers that a file of `N` blocks uses. -/
def SlotUsed (fs : ExtFs) (N i : Nat) : Prop :=
  i < min N 12 ∨ (i = 12 ∧ 12 < N) ∨ (i = 13 ∧ 12 + fs.ptrs < N)

/-- The volume an attempt to clear the inode leaves behind. -/
def clearedVolume (fs : ExtFs) (d : Volume) (inode : Bytes) : Volume :=
  match ext4InodeClearData fs d inode with
  | .ok (d', _) => d'
  | .error d' => d'

/-- The blocks `new` are those of the file: they have been allocated for it, its pointers
are exactly they, and they are all that is released when the file is overwritten or
removed later. -/
structure OwnsExactly (fs : ExtFs) (d d' : Volume) (N : Nat) (inode : Bytes) (new : List Nat) :
    Prop where
  nodup : new.Nodup
  used : ∀ x ∈ new, fs.HasBlock x ∧ blockUsed fs d' x = true
  allocated : ∀ x, fs.HasBlock x → blockUsed fs d x = false → blockUsed fs d' x = true → x ∈ new
  refs : ∀ x, x ∈ ext4Refs fs d' inode ↔ x ∈ new
  slots : ext4InodeUsesExtents inode = false → ∀ i, i < 15 →
    (SlotUsed fs N i → inodePtr inode i ∈ new) ∧ (¬ SlotUsed fs N i → inodePtr inode i = 0)
  later : ∀ e, Consistent fs e → SamePlaces fs d' e → (∀ x ∈ new, e x = d' x) →
    ∀ x, fs.HasBlock x → blockUsed fs e x = true →
      blockUsed fs (clearedVolume fs e inode) x = false → x ∈ new

/-! ## Clearing extents -/

theorem ext4FreeBlocks_releases (blocks : List Nat) {d : Volume} (ok : Consistent fs d)
    (data : ∀ x ∈ blocks, DataBlock fs d x) :
    ReleasesTo fs d blocks id (ext4FreeBlocks fs blocks d) := by
  induction blocks generalizing d with
  | nil => exact releasesTo_ok ok rfl
  | cons b bs ih =>
      have first := releasesTo_freeBlock ok (data b (List.mem_cons_self ..))
      exact first.bind fun d' eq => ih (first.of_ok eq).consistent fun x mem =>
        (first.of_ok eq).dataBlock (data x (List.mem_cons_of_mem _ mem))

/-- The words of a cleared inode: those of the header, and zeros. -/
theorem ext4ExtentInit_words (inode : Bytes) :
    inodePtr (ext4ExtentInit inode) 0 = 0xF30A ∧ inodePtr (ext4ExtentInit inode) 1 = 4 ∧
      (∀ j, 2 ≤ j → j < 15 → inodePtr (ext4ExtentInit inode) j = 0) ∧
      ∀ k, k < 40 → ext4ExtentInit inode k = inode k := by
  unfold inodePtr ext4ExtentInit ehMagic ehEntries ehMax ehDepth ehGeneration
  refine ⟨?_, ?_, fun j le lt => ?_, fun k lt => ?_⟩
  · rw [rd32_eq, rd16_wr32_of_apart (by omega), rd16_wr16_of_apart (by omega),
      rd16_wr16_of_apart (by omega), rd16_wr16_of_apart (by omega), Nat.mul_zero, Nat.add_zero,
      rd16_wr16 (by decide), rd16_wr32_of_apart (by omega), rd16_wr16_of_apart (by omega),
      rd16_wr16_of_apart (by omega), rd16_wr16 (by decide)]
    rfl
  · rw [rd32_eq, rd16_wr32_of_apart (by omega), rd16_wr16_of_apart (by omega),
      rd16_wr16 (by decide), rd16_wr32_of_apart (by omega), rd16_wr16 (by decide)]
  · rcases Nat.eq_or_lt_of_le le with rfl | after
    · exact rd32_wr32_zero
    · -- the words behind the header
      rw [rd32_wr32_of_apart (by omega), rd32_wr16_of_apart (by omega),
        rd32_wr16_of_apart (by omega), rd32_wr16_of_apart (by omega),
        rd32_wr16_of_apart (by omega), rd32_splice (by omega)]
      rfl
  · unfold inBlock
    rw [wr32_of_apart (by omega), wr16_of_apart (by omega), wr16_of_apart (by omega),
      wr16_of_apart (by omega), wr16_of_apart (by omega), splice_of_apart (by omega)]

/-- The words of an inode cleared by `ext4_extent_init`. -/
structure ExtentCleared (inode : Bytes) : Prop where
  zeroth : inodePtr inode 0 = 0xF30A
  first : inodePtr inode 1 = 4
  others : ∀ j, 2 ≤ j → j < 15 → inodePtr inode j = 0

theorem extentCleared_init (inode : Bytes) :
    ExtentCleared (clearExtentsFlag (setSize (ext4ExtentInit inode) 0 0)) := by
  obtain ⟨zeroth, first, others, -⟩ := ext4ExtentInit_words inode
  have ptr : ∀ j, inodePtr (clearExtentsFlag (setSize (ext4ExtentInit inode) 0 0)) j =
      inodePtr (ext4ExtentInit inode) j := by
    intro j
    have flags : inodePtr (clearExtentsFlag (setSize (ext4ExtentInit inode) 0 0)) j =
        inodePtr (setSize (ext4ExtentInit inode) 0 0) j :=
      rd32_wr32_of_apart (by unfold inBlock inFlags; omega)
    rw [flags, inodePtr_setSize]
  refine ⟨?_, ?_, fun j le lt => ?_⟩
  · rw [ptr, zeroth]
  · rw [ptr, first]
  · rw [ptr, others j le lt]

theorem ext4InodeClearData_ok (ok : Consistent fs d) (mapped : ExtentMapped fs d inode)
    {r : Volume × Bytes} (eq : ext4InodeClearData fs d inode = .ok r) :
    Released fs d (extentBlocks inode) r.1 ∧
      r.2 = setSize (ext4ExtentInit inode) 0 0 := by
  unfold ext4InodeClearData at eq
  rw [if_pos mapped.uses, if_neg (by rw [not_or, not_not, not_not]; exact ⟨mapped.magic, mapped.depth⟩)]
    at eq
  obtain ⟨d', free, eq⟩ := exists_of_bind_ok eq
  obtain rfl := Except.ok.inj eq
  exact ⟨(ext4FreeBlocks_releases _ ok mapped.blocks).of_ok free, rfl⟩

/-- What a successful write does. -/
theorem ext4WriteFileReader_ok {reader : Reader} {ino : Nat} (supplies : Supplies reader data len)
    (ok : Consistent fs d) (mapped : ExtentMapped fs d inode)
    (eq : ext4WriteFileReader fs d ino inode len reader = .ok d') :
    ∃ d₁, Released fs d (extentBlocks inode) d₁ ∧
      ((len = 0 ∧ ∃ inode₁, inode₁ = setSize (setSize (ext4ExtentInit inode) 0 0) 0 0 ∧
          extWriteInode fs d₁ ino inode₁ = some d') ∨
        (len ≠ 0 ∧ fs.needed len ≤ fs.maxBlocks ∧ ∃ d₂ inode₂ inds,
          FilledInode fs data len (fs.needed len) d₁
            (clearExtentsFlag (setSize (ext4ExtentInit inode) 0 0)) inds d₂ inode₂ ∧
          extWriteInode fs d₂ ino inode₂ = some d')) := by
  have pos : 0 < fs.ptrs := by
    unfold ExtFs.ptrs
    rcases ok.blockSize with eq | eq | eq <;> omega
  unfold ext4WriteFileReader at eq
  split at eq
  · exact absurd eq (by simp)
  · obtain ⟨⟨d₂, inode₂⟩, write, eq⟩ := exists_of_bind_ok eq
    obtain ⟨⟨d₁, inode₁⟩, clear, write⟩ := exists_of_bind_ok write
    obtain ⟨released, cleared⟩ := ext4InodeClearData_ok ok mapped clear
    dsimp only at released cleared
    subst cleared
    have table := eq_some_of_orFail eq
    refine ⟨d₁, released, ?_⟩
    dsimp only at write
    split at write
    next zero =>
      obtain ⟨rfl, rfl⟩ := Prod.mk.inj (Except.ok.inj write)
      exact .inl ⟨zero, _, rfl, table⟩
    next some =>
      split at write
      · exact absurd write (by simp)
      next le =>
        have fills := extFillInode_fills supplies pos
          (clearExtentsFlag (setSize (ext4ExtentInit inode) 0 0)) released.consistent
        rw [write] at fills
        obtain ⟨inds, filled⟩ := fills
        exact .inr ⟨some, by omega, d₂, inode₂, inds, filled, table⟩

/-! ## Clearing later -/

/-- The blocks released are those of the file. -/
theorem clearedVolume_only (ok : Consistent fs d)
    (data : ∀ x ∈ ext4Refs fs d inode, DataBlock fs d x) {x : Nat} (has : fs.HasBlock x)
    (used : blockUsed fs d x = true) (free : blockUsed fs (clearedVolume fs d inode) x = false) :
    x ∈ ext4Refs fs d inode := by
  have releases : ReleasesTo fs d (ext4Refs fs d inode) Prod.fst
      (ext4InodeClearData fs d inode) := by
    unfold ext4Refs at data ⊢
    unfold ext4InodeClearData
    split
    next uses =>
      rw [if_pos uses] at data
      split
      · exact ⟨[], List.nil_subset _, .refl ok⟩
      · exact (ext4FreeBlocks_releases _ ok data).map fun _ => rfl
    next uses =>
      rw [if_neg uses] at data
      exact (extInodeClearData_releases ok data).1
  -- what is no longer in use has been released
  have member : ∀ old e, Released fs d old e → old ⊆ ext4Refs fs d inode →
      blockUsed fs e x = false → x ∈ ext4Refs fs d inode := by
    intro old e released sub free
    by_contra notRef
    rw [(released.used x has).2 ⟨used, fun mem => notRef (sub mem)⟩] at free
    exact absurd free (by simp)
  unfold clearedVolume at free
  cases eq : ext4InodeClearData fs d inode with
  | ok r =>
      rw [eq] at free releases
      exact member _ _ releases (List.Subset.refl _) free
  | error d' =>
      rw [eq] at free releases
      obtain ⟨part, sub, released⟩ := releases
      exact member _ _ released sub free

/-! ## The overwrite -/

theorem flag_cleared {p : Bytes} : rd32 (clearExtentsFlag p) inFlags &&& ext4ExtentsFl = 0 := by
  have lt : rd32 p inFlags &&& (0xFFFFFFFF ^^^ ext4ExtentsFl) < 4294967296 :=
    Nat.lt_of_le_of_lt Nat.and_le_left rd32_lt
  unfold clearExtentsFlag
  rw [rd32_wr32 lt, Nat.and_assoc]
  exact Nat.and_zero _

theorem usesExtents_congr {inode' : Bytes} (same : ∀ k, 32 ≤ k → k < 36 → inode' k = inode k) :
    ext4InodeUsesExtents inode' = ext4InodeUsesExtents inode := by
  unfold ext4InodeUsesExtents
  rw [show rd32 inode' inFlags = rd32 inode inFlags from
    rd32_congr fun i lt => same _ (by unfold inFlags; omega) (by unfold inFlags; omega)]

theorem ext4Refs_congr (same : ∀ x ∈ ext4Refs fs d inode, d' x = d x) :
    ext4Refs fs d' inode = ext4Refs fs d inode := by
  unfold ext4Refs at same ⊢
  split
  · rfl
  next uses =>
    rw [if_neg uses] at same
    exact fileRefs_congr (fun _ _ => rfl) same

/-- What is released later is what the inode refers to now. -/
theorem later_of_refs {new : List Nat} (refs : ∀ x, x ∈ ext4Refs fs d' inode ↔ x ∈ new)
    (data : ∀ x ∈ new, DataBlock fs d' x) {e : Volume} (ok : Consistent fs e)
    (places : SamePlaces fs d' e) (same : ∀ x ∈ new, e x = d' x) {x : Nat} (has : fs.HasBlock x)
    (used : blockUsed fs e x = true) (free : blockUsed fs (clearedVolume fs e inode) x = false) :
    x ∈ new := by
  have eq : ext4Refs fs e inode = ext4Refs fs d' inode :=
    ext4Refs_congr fun x mem => same x ((refs x).1 mem)
  rw [← refs x, ← eq]
  refine clearedVolume_only ok (fun y mem => ?_) has used free
  rw [eq] at mem
  exact places.dataBlock (data y ((refs y).1 mem))

/-- An empty file keeps its extents, and has none. -/
theorem owns_of_empty {d₁ : Volume} {ino : Nat} {inode' : Bytes} {old : List Nat}
    (mapped : ExtentMapped fs d inode) (released : Released fs d old d₁)
    (written : InodeWritten fs d₁ ino (setSize (setSize (ext4ExtentInit inode) 0 0) 0 0) d')
    (same : ∀ k, k < inodeRecordSize →
      inode' k = setSize (setSize (ext4ExtentInit inode) 0 0) 0 0 k) :
    OwnsExactly fs d d' N inode' [] := by
  obtain ⟨-, -, -, kept⟩ := ext4ExtentInit_words inode
  have uses : ext4InodeUsesExtents inode' = true := by
    rw [← mapped.uses]
    refine usesExtents_congr fun k le lt => ?_
    rw [same k (by unfold inodeRecordSize; omega), setSize_of_apart (by omega),
      setSize_of_apart (by omega), kept k (by omega)]
  have entries : rd16 inode' ehEntries = 0 := by
    have init : rd16 (ext4ExtentInit inode) ehEntries = 0 := by
      unfold ext4ExtentInit ehMagic ehEntries ehMax ehDepth ehGeneration
      rw [rd16_wr32_of_apart (by omega), rd16_wr16_of_apart (by omega),
        rd16_wr16_of_apart (by omega), rd16_wr16 (by decide)]
    rw [← init]
    refine rd16_congr fun i lt => ?_
    rw [same _ (by unfold ehEntries inBlock inodeRecordSize; omega),
      setSize_of_apart (by unfold ehEntries inBlock; omega),
      setSize_of_apart (by unfold ehEntries inBlock; omega)]
  have refs : ext4Refs fs d' inode' = [] := by
    rw [ext4Refs, if_pos uses, extentBlocks, entries]
    rfl
  have member : ∀ x, x ∈ ext4Refs fs d' inode' ↔ x ∈ [] := fun x => by rw [refs]
  refine ⟨List.nodup_nil, by simp, fun x has free used => ?_, member, fun no => ?_,
    fun e ok places _ x has used free => later_of_refs member (by simp) ok places (by simp) has
      used free⟩
  · rw [written.used x has] at used
    rw [((released.used x has).1 used).1] at free
    exact absurd free (by simp)
  · rw [uses] at no
    exact absurd no (by simp)

section Filled

variable {d₁ d₂ : Volume} {ino : Nat} {inode' inode₁ inode₂ : Bytes} {inds old : List Nat}

/-- The header words left behind by `ext4_extent_init` are filled from the second block on. -/
theorem owns_of_filled (released : Released fs d old d₁) (clean : ExtentCleared inode₁)
    (flag : ext4InodeUsesExtents inode₁ = false)
    (filled : FilledInode fs data len N d₁ inode₁ inds d₂ inode₂)
    (written : InodeWritten fs d₂ ino inode₂ d') (two : 2 ≤ N) (most : N ≤ fs.maxBlocks)
    (same : ∀ k, k < inodeRecordSize → inode' k = inode₂ k) :
    OwnsExactly fs d d' N inode' ((List.range' 0 N).map (filePtr fs d₂ inode₂) ++ inds) := by
  have ok₁ := released.consistent
  have pos : 0 < fs.ptrs := by
    unfold ExtFs.ptrs
    rcases ok₁.blockSize with eq | eq | eq <;> omega
  have ptrs : ∀ j, j < 15 → inodePtr inode' j = inodePtr inode₂ j := fun j lt =>
    rd32_congr fun i _ => same _ (by unfold inBlock inodeRecordSize; omega)
  have cleared : ∀ j, j < 15 → (j < 12 → N ≤ j) → inodePtr inode₁ j = 0 := fun j lt few =>
    clean.others j (by omega) lt
  have inRefs : ∀ x, x ∈ fileRefs fs d₂ inode₂ ↔ _ := fun x =>
    filled.mem_fileRefs ok₁ (fun j lt few => cleared j (by omega) few) pos most
  have uses : ext4InodeUsesExtents inode' = false := by
    rw [← flag]
    refine usesExtents_congr fun k le lt => ?_
    rw [same k (by unfold inodeRecordSize; omega), filled.kept k (by omega)]
  have refs : ∀ x, x ∈ ext4Refs fs d' inode' ↔
      x ∈ (List.range' 0 N).map (filePtr fs d₂ inode₂) ++ inds := by
    have eq : ext4Refs fs d' inode' = fileRefs fs d₂ inode₂ := by
      rw [ext4Refs, uses]
      exact fileRefs_congr (fun j lt => ptrs j (by omega)) fun x mem =>
        filled.kept_by_table ok₁ written ((inRefs x).1 mem)
    intro x
    rw [eq]
    exact inRefs x
  have dataBlocks : ∀ x ∈ (List.range' 0 N).map (filePtr fs d₂ inode₂) ++ inds,
      DataBlock fs d' x := fun x mem => written.places.dataBlock
    (filled.grown.places.dataBlock (filled.grown.dataBlock ok₁ mem))
  refine ⟨filled.grown.nodup, fun x mem => filled.grown.used_of_new written mem,
    fun x has free used => filled.grown.new_of_used released written has free used, refs,
    fun _ i lt => ⟨fun slot => ?_, fun slot => ?_⟩,
    fun e ok places same x has used free => later_of_refs refs dataBlocks ok places same has used
      free⟩
  · rw [ptrs i lt]
    rcases slot with direct | ⟨rfl, more⟩ | ⟨rfl, more⟩
    · have mem : filePtr fs d₂ inode₂ i ∈ (List.range' 0 N).map (filePtr fs d₂ inode₂) ++ inds :=
        filePtr_mem (show i < N by omega)
      unfold filePtr at mem
      rwa [if_pos (by omega)] at mem
    · exact List.mem_append_right _ (filled.single more).1
    · exact List.mem_append_right _ (filled.double more)
  · unfold SlotUsed at slot
    rw [not_or, not_or] at slot
    rw [ptrs i lt]
    rcases Nat.lt_or_ge i 14 with before | last
    · rw [filled.unset i before (by omega) (by omega) (by omega)]
      exact cleared i lt (by omega)
    · rw [← cleared i lt (by omega)]
      exact rd32_congr fun k _ => filled.kept _ (by unfold inBlock; omega)

/-- The header word behind the last pointer of a short file stays. -/
theorem header_word_left (clean : ExtentCleared inode₁)
    (filled : FilledInode fs data len N d₁ inode₁ inds d₂ inode₂) (few : N < 2) :
    inodePtr inode₂ N ≠ 0 := by
  rw [filled.unset N (by omega) (by omega) (by omega) (by omega)]
  rcases Nat.eq_zero_or_pos N with rfl | one
  · rw [clean.zeroth]
    decide
  · obtain rfl : N = 1 := by omega
    rw [clean.first]
    decide

end Filled

/-- **The inode refers to exactly the new blocks if the new data is empty or has two blocks
at least, and only then.** -/
theorem ext4_overwrite_iff (fs : ExtFs) (d d' : Volume) (ino : Nat) (inode data : Bytes)
    (len : Nat) (ok : Consistent fs d) (has : fs.HasInode ino) (mapped : ExtentMapped fs d inode)
    (accepted : ext4WriteFile fs d ino inode data len = .ok d') :
    (∃ inode' new, extReadInode fs d' ino = some inode' ∧
      OwnsExactly fs d d' (fs.needed len) inode' new) ↔ len = 0 ∨ 2 ≤ fs.needed len := by
  obtain ⟨d₁, released, empty | ⟨some, most, d₂, inode₂, inds, filled, table⟩⟩ :=
    ext4WriteFileReader_ok (bufferReader_supplies data len) ok mapped accepted
  · obtain ⟨zero, inode₁, rfl, table⟩ := empty
    refine ⟨fun _ => .inl zero, fun _ => ?_⟩
    have written := extWriteInode_ok released.consistent has table
    obtain ⟨inode', read, same⟩ := written.read
    exact ⟨inode', [], read, owns_of_empty mapped released written same⟩
  · have written := extWriteInode_ok filled.grown.consistent has table
    obtain ⟨inode', read, same⟩ := written.read
    have clean := extentCleared_init inode
    have flag : ext4InodeUsesExtents
        (clearExtentsFlag (setSize (ext4ExtentInit inode) 0 0)) = false := by
      unfold ext4InodeUsesExtents
      rw [flag_cleared]
      rfl
    constructor
    · rintro ⟨inode'', new, read', owns⟩
      obtain rfl := Option.some.inj (read.symm.trans read')
      by_contra few
      rw [not_or] at few
      have uses : ext4InodeUsesExtents inode' = false := by
        rw [← flag]
        refine usesExtents_congr fun k le lt => ?_
        rw [same k (by unfold inodeRecordSize; omega), filled.kept k (by omega)]
      have zero := (owns.slots uses (fs.needed len) (by omega)).2 (by unfold SlotUsed; omega)
      have left := header_word_left clean filled (by omega)
      rw [← show inodePtr inode' (fs.needed len) = inodePtr inode₂ (fs.needed len) from
        rd32_congr fun i _ => same _ (by unfold inBlock inodeRecordSize; omega)] at left
      exact left zero
    · rintro (zero | two)
      · exact absurd zero some
      · exact ⟨inode', _, read, owns_of_filled released clean flag filled written two most same⟩

/-! ## A small volume with extents -/

/-- The inode 11 of `smallVolume` with its block mapped by an extent. -/
def extentInode : Bytes := fun i =>
  if i = 1 then 0x80 else if i = 4 then 3 else if i = 28 then 2 else if i = 34 then 8
  else if i = 40 then 0x0A else if i = 41 then 0xF3 else if i = 42 then 1 else if i = 44 then 4
  else if i = 56 then 1 else if i = 60 then 7 else 0

theorem extentInode_mapped : ExtentMapped (smallFs 236) smallVolume extentInode where
  uses := by decide
  magic := by decide
  depth := by decide
  entries := by decide
  blocks := by
    have blocks : extentBlocks extentInode = [7] := by decide
    rw [blocks]
    intro x mem
    obtain rfl := List.mem_singleton.1 mem
    exact ⟨⟨by decide, by decide⟩, by decide⟩

/-- The file is overwritten with 1500 bytes, which are two blocks. -/
theorem ext4_overwrite_two_blocks :
    (∃ inode' new, extReadInode (smallFs 236) (volumeAfter (ext4WriteFile (smallFs 236) smallVolume 11
        extentInode (fun i => UInt8.ofNat i) 1500)) 11 = some inode' ∧
      OwnsExactly (smallFs 236) smallVolume (volumeAfter (ext4WriteFile (smallFs 236) smallVolume 11
        extentInode (fun i => UInt8.ofNat i) 1500)) ((smallFs 236).needed 1500) inode' new) ↔
      1500 = 0 ∨ 2 ≤ (smallFs 236).needed 1500 :=
  ext4_overwrite_iff (smallFs 236) smallVolume _ 11 extentInode (fun i => UInt8.ofNat i) 1500
    (small_consistent (.inr rfl)) (by unfold ExtFs.HasInode; decide) extentInode_mapped
    (eq_ok_volumeAfter (by decide +kernel))

/-- Five bytes are one block, and the second pointer is 4. -/
theorem ext4_overwrite_one_block :
    ¬ ∀ (fs : ExtFs) (d d' : Volume) (ino : Nat) (inode data : Bytes) (len : Nat),
      Consistent fs d → fs.HasInode ino → ExtentMapped fs d inode →
      ext4WriteFile fs d ino inode data len = .ok d' →
      ∃ inode' new, extReadInode fs d' ino = some inode' ∧
        OwnsExactly fs d d' (fs.needed len) inode' new := by
  intro always
  obtain ⟨inode', new, read, owns⟩ := always (smallFs 236) smallVolume _ 11 extentInode
    (fun i => UInt8.ofNat i) 5 (small_consistent (.inr rfl)) (by unfold ExtFs.HasInode; decide)
    extentInode_mapped (eq_ok_volumeAfter (by decide +kernel))
  have second : (extReadInode (smallFs 236) (volumeAfter (ext4WriteFile (smallFs 236) smallVolume 11
      extentInode (fun i => UInt8.ofNat i) 5)) 11).map
        (fun inode => (ext4InodeUsesExtents inode, inodePtr inode 1)) = some (false, 4) := by
    decide +kernel
  rw [read] at second
  obtain ⟨uses, ptr⟩ := Prod.mk.inj (Option.some.inj second)
  have zero := (owns.slots uses 1 (by decide)).2 (by
    unfold SlotUsed ExtFs.ptrs
    decide)
  rw [zero] at ptr
  exact absurd ptr (by decide)

end NTux.Ext
