import NTux.Ext.PathFiles

/-!
# The extents of an inode

An inode with the extent flag maps its blocks by a node of 60 bytes: a header of 12 and up
to four extents of 12.  `ext4_extent_get_phys_block` goes through as many as the header
counts and takes the lower 15 bits of the stored length, and `ext4_inode_clear_data`
releases the blocks in a loop of its own.  In the format a length up to 32768 is that of
initialised blocks, and a greater one is that of unwritten blocks, 32768 less.

* `extentHit` — one turn of the lookup loop, and `extentRead` the extents it reads.
* `lengthBlocks` — what a stored length means.
* `ExtentSound` — lookup and release follow the format, inside the node and without overflow.
* `extent_lookup_iff` — which nodes the code is sound for.
-/

namespace NTux.Ext

open NTux.Lib NTux.Lib.Bytes

/-- `ee_block` -/
def eeBlock (inode : Bytes) (i : Nat) : Nat := rd32 inode (extentAt i)

/-- `ee_len` -/
def eeRawLen (inode : Bytes) (i : Nat) : Nat := rd16 inode (extentAt i + 4)

/-- A turn of the loop of `ext4_extent_get_phys_block`. -/
def extentHit (inode : Bytes) (lblock i : Nat) : Option Nat :=
  let start := eeBlock inode i
  let len := eeLen inode i
  if len = 0 ∨ lblock < start ∨ (start + len) % 2 ^ 32 ≤ lblock then none
  else some ((eeStart inode i + (lblock - start)) % 2 ^ 32)

/-- The lookup of `lblock` reads the extent `i`: none before it is the one looked for. -/
def extentRead (inode : Bytes) (lblock i : Nat) : Prop :=
  i < rd16 inode ehEntries ∧ ∀ j < i, extentHit inode lblock j = none

/-- The blocks a stored length stands for; those of an unwritten extent count as mapped or
as a hole. -/
def lengthBlocks (unwritten : Bool) (raw : Nat) : Nat :=
  if raw ≤ 32768 then raw else if unwritten then raw - 32768 else 0

/-- A root node: its magic number is right, it has no levels below, and its extents, as far
as it has room for them, are sorted and disjoint. -/
structure ExtentRoot (inode : Bytes) : Prop where
  uses : ext4InodeUsesExtents inode = true
  magic : rd16 inode ehMagic = ext4ExtMagic
  depth : rd16 inode ehDepth = 0
  sorted : ∀ i j, i < j → j < rd16 inode ehEntries → j < 4 →
    eeBlock inode i + lengthBlocks true (eeRawLen inode i) ≤ eeBlock inode j

/-- One of the (at most four) extents covers the block. -/
def ExtentCovers (unwritten : Bool) (inode : Bytes) (lblock i : Nat) : Prop :=
  i < rd16 inode ehEntries ∧ i < 4 ∧ eeBlock inode i ≤ lblock ∧
    lblock < eeBlock inode i + lengthBlocks unwritten (eeRawLen inode i)

/-- The code follows the format for this inode. -/
structure ExtentSound (unwritten : Bool) (inode : Bytes) : Prop where
  /-- a block is found where an extent covers it, and is a hole otherwise -/
  lookup : ∀ lblock < 2 ^ 32, ∀ p, ext4ExtentGetPhysBlock inode lblock = some p ↔
    ∃ i, ExtentCovers unwritten inode lblock i ∧ p = eeStart inode i + (lblock - eeBlock inode i)
  /-- lookup and release read the 60 bytes only -/
  inside : (∀ lblock < 2 ^ 32, ∀ i, extentRead inode lblock i → extentAt i + 12 ≤ inBlock + 60) ∧
    ∀ i < rd16 inode ehEntries, extentAt i + 12 ≤ inBlock + 60
  /-- the end of an extent and the block found fit in 32 bits -/
  sums : ∀ lblock < 2 ^ 32, ∀ i, extentRead inode lblock i → eeLen inode i ≠ 0 →
    eeBlock inode i + eeLen inode i < 2 ^ 32 ∧
      (eeBlock inode i ≤ lblock → lblock < eeBlock inode i + eeLen inode i →
        eeStart inode i + (lblock - eeBlock inode i) < 2 ^ 32)
  /-- the blocks released are those that the lookup can return -/
  frees : ∀ b, b ∈ extentBlocks inode ↔
    ∃ lblock < 2 ^ 32, ext4ExtentGetPhysBlock inode lblock = some b

/-- What the code relies on: at most four extents; no stored length of 32768, none beyond
where the unwritten count as a hole; and logical and physical blocks of 32 bits, the end
of the logical ones included. -/
structure ExtentPlain (unwritten : Bool) (inode : Bytes) : Prop where
  few : rd16 inode ehEntries ≤ 4
  length : ∀ i < rd16 inode ehEntries, eeRawLen inode i ≠ 32768 ∧
    (unwritten = false → eeRawLen inode i < 32768)
  logical : ∀ i < rd16 inode ehEntries, eeLen inode i ≠ 0 →
    eeBlock inode i + eeLen inode i < 2 ^ 32
  physical : ∀ i < rd16 inode ehEntries, eeLen inode i ≠ 0 →
    eeStart inode i + eeLen inode i ≤ 2 ^ 32

/-! ## The lookup loop -/

variable {inode : Bytes} {lblock i j n p : Nat} {unwritten : Bool}

/-- Where one element at most has a result, it is the one found. -/
theorem findSome?_range_of_unique {α : Type} {f : Nat → Option α} {b : α}
    (unique : ∀ i < n, ∀ j < n, f i ≠ none → f j ≠ none → i = j) :
    (List.range n).findSome? f = some b ↔ ∃ i < n, f i = some b := by
  constructor
  · intro found
    obtain ⟨i, mem, eq⟩ := List.exists_of_findSome?_eq_some found
    exact ⟨i, List.mem_range.mp mem, eq⟩
  · rintro ⟨i, lt, eq⟩
    cases found : (List.range n).findSome? f with
    | none =>
        have := List.findSome?_eq_none_iff.mp found i (List.mem_range.mpr lt)
        rw [eq] at this
        cases this
    | some b' =>
        obtain ⟨j, mem, eq'⟩ := List.exists_of_findSome?_eq_some found
        obtain rfl := unique i lt j (List.mem_range.mp mem) (by simp [eq]) (by simp [eq'])
        exact eq'.symm.trans eq

theorem ext4ExtentGetPhysBlock_eq (root : ExtentRoot inode) (lblock : Nat) :
    ext4ExtentGetPhysBlock inode lblock =
      (List.range (rd16 inode ehEntries)).findSome? (extentHit inode lblock) := by
  have fine : ¬ (rd16 inode ehMagic ≠ ext4ExtMagic ∨ rd16 inode ehDepth ≠ 0) := by
    rw [root.magic, root.depth]
    simp
  unfold ext4ExtentGetPhysBlock
  rw [if_neg fine]
  rfl

theorem eeRawLen_lt (inode : Bytes) (i : Nat) : eeRawLen inode i < 65536 := rd16_lt

theorem eeLen_eq : eeLen inode i = eeRawLen inode i % 32768 := rfl

theorem eeLen_le_lengthBlocks (inode : Bytes) (i : Nat) :
    eeLen inode i ≤ lengthBlocks true (eeRawLen inode i) := by
  have lt := eeRawLen_lt inode i
  rw [eeLen_eq]
  unfold lengthBlocks
  split
  · exact Nat.mod_le _ _
  · simp only [↓reduceIte]
    omega

theorem lengthBlocks_le (unwritten : Bool) (n : Nat) : lengthBlocks unwritten n ≤ lengthBlocks true n := by
  unfold lengthBlocks
  split
  · exact le_refl _
  · cases unwritten <;> simp

/-- A hit lies in the extent. -/
theorem extentHit_ne_none (hit : extentHit inode lblock i ≠ none) :
    eeLen inode i ≠ 0 ∧ eeBlock inode i ≤ lblock ∧ lblock < eeBlock inode i + eeLen inode i := by
  unfold extentHit at hit
  dsimp only at hit
  split at hit
  next => exact absurd rfl hit
  next inside =>
    have wrap := Nat.mod_le (eeBlock inode i + eeLen inode i) (2 ^ 32)
    omega

theorem extentHit_some (hit : extentHit inode lblock i = some p) :
    eeLen inode i ≠ 0 ∧ eeBlock inode i ≤ lblock ∧ lblock < eeBlock inode i + eeLen inode i := by
  refine extentHit_ne_none ?_
  rw [hit]
  exact Option.some_ne_none p

theorem extentHit_eq_some (fits : eeBlock inode i + eeLen inode i < 2 ^ 32)
    (ge : eeBlock inode i ≤ lblock) (lt : lblock < eeBlock inode i + eeLen inode i) :
    extentHit inode lblock i = some ((eeStart inode i + (lblock - eeBlock inode i)) % 2 ^ 32) := by
  unfold extentHit
  dsimp only
  rw [if_neg]
  rw [Nat.mod_eq_of_lt fits]
  omega

/-- The last block of all is never found: the end of an extent is less in 32 bits. -/
theorem extentHit_last : extentHit inode (2 ^ 32 - 1) i = none := by
  unfold extentHit
  dsimp only
  rw [if_pos]
  have := Nat.mod_lt (eeBlock inode i + eeLen inode i) (show 0 < 2 ^ 32 by decide)
  omega

/-- The extents that have a block in common are one. -/
theorem ExtentRoot.eq_of_common (root : ExtentRoot inode) (few : rd16 inode ehEntries ≤ 4)
    (hi : i < rd16 inode ehEntries) (hj : j < rd16 inode ehEntries)
    (in_i : eeBlock inode i ≤ lblock ∧
      lblock < eeBlock inode i + lengthBlocks true (eeRawLen inode i))
    (in_j : eeBlock inode j ≤ lblock ∧
      lblock < eeBlock inode j + lengthBlocks true (eeRawLen inode j)) : i = j := by
  rcases Nat.lt_trichotomy i j with before | same | after
  · have := root.sorted i j before hj (by omega)
    omega
  · exact same
  · have := root.sorted j i after hi (by omega)
    omega

theorem ExtentRoot.hit_unique (root : ExtentRoot inode) (few : rd16 inode ehEntries ≤ 4) :
    ∀ i < rd16 inode ehEntries, ∀ j < rd16 inode ehEntries,
      extentHit inode lblock i ≠ none → extentHit inode lblock j ≠ none → i = j := by
  intro i hi j hj hit_i hit_j
  have in_i := extentHit_ne_none hit_i
  have in_j := extentHit_ne_none hit_j
  have len_i := eeLen_le_lengthBlocks inode i
  have len_j := eeLen_le_lengthBlocks inode j
  exact root.eq_of_common few hi hj ⟨in_i.2.1, by omega⟩ ⟨in_j.2.1, by omega⟩

/-- With at most four extents the block found is that of the one extent that has it. -/
theorem ExtentRoot.lookup_eq_some_iff (root : ExtentRoot inode)
    (few : rd16 inode ehEntries ≤ 4) :
    ext4ExtentGetPhysBlock inode lblock = some p ↔
      ∃ i < rd16 inode ehEntries, extentHit inode lblock i = some p := by
  rw [ext4ExtentGetPhysBlock_eq root]
  exact findSome?_range_of_unique (root.hit_unique few)

/-! ## The release -/

theorem mem_extentBlocks {b : Nat} : b ∈ extentBlocks inode ↔
    ∃ i < rd16 inode ehEntries, ∃ j < eeLen inode i, b = (eeStart inode i + j) % 2 ^ 32 := by
  simp only [extentBlocks, List.mem_flatMap, List.mem_range, List.mem_map, eq_comm]

/-! ## Soundness -/

/-- The node that the code relies on is enough. -/
theorem ExtentPlain.sound (root : ExtentRoot inode) (plain : ExtentPlain unwritten inode) :
    ExtentSound unwritten inode := by
  have blocks : ∀ i < rd16 inode ehEntries,
      lengthBlocks unwritten (eeRawLen inode i) = eeLen inode i := by
    intro i lt
    have raw := eeRawLen_lt inode i
    have stored := plain.length i lt
    rw [eeLen_eq]
    unfold lengthBlocks
    cases unwritten with
    | false =>
        have := stored.2 rfl
        rw [if_pos (by omega)]
        omega
    | true =>
        split
        · omega
        · simp only [↓reduceIte]
          omega
  have entry : ∀ i < rd16 inode ehEntries, extentAt i + 12 ≤ inBlock + 60 := by
    intro i lt
    have := plain.few
    unfold extentAt
    omega
  have found : ∀ i < rd16 inode ehEntries, ∀ j < eeLen inode i,
      extentHit inode (eeBlock inode i + j) i = some (eeStart inode i + j) := by
    intro i lt j within
    have logical := plain.logical i lt (by omega)
    have physical := plain.physical i lt (by omega)
    rw [extentHit_eq_some logical (by omega) (by omega), Nat.add_sub_cancel_left,
      Nat.mod_eq_of_lt (by omega)]
  constructor
  case lookup =>
    intro lblock _ p
    rw [root.lookup_eq_some_iff plain.few]
    constructor
    · rintro ⟨i, lt, hit⟩
      obtain ⟨-, ge, within⟩ := extentHit_some hit
      have := found i lt (lblock - eeBlock inode i) (by omega)
      rw [Nat.add_sub_of_le ge, hit] at this
      refine ⟨i, ⟨lt, by have := plain.few; omega, ge, ?_⟩, Option.some.inj this⟩
      rw [blocks i lt]
      exact within
    · rintro ⟨i, ⟨lt, -, ge, within⟩, rfl⟩
      rw [blocks i lt] at within
      have := found i lt (lblock - eeBlock inode i) (by omega)
      rw [Nat.add_sub_of_le ge] at this
      exact ⟨i, lt, this⟩
  case inside => exact ⟨fun lblock _ i read => entry i read.1, entry⟩
  case sums =>
    intro lblock _ i read some_len
    have physical := plain.physical i read.1 some_len
    exact ⟨plain.logical i read.1 some_len, fun ge within => by omega⟩
  case frees =>
    intro b
    rw [mem_extentBlocks]
    constructor
    · rintro ⟨i, lt, j, within, rfl⟩
      have logical := plain.logical i lt (by omega)
      have physical := plain.physical i lt (by omega)
      refine ⟨eeBlock inode i + j, by omega, (root.lookup_eq_some_iff plain.few).mpr ⟨i, lt, ?_⟩⟩
      rw [found i lt j within, Nat.mod_eq_of_lt (by omega)]
    · rintro ⟨lblock, _, eq⟩
      obtain ⟨i, lt, hit⟩ := (root.lookup_eq_some_iff plain.few).mp eq
      obtain ⟨some_len, ge, within⟩ := extentHit_some hit
      rw [extentHit_eq_some (plain.logical i lt some_len) ge within] at hit
      exact ⟨i, lt, lblock - eeBlock inode i, by omega, (Option.some.inj hit).symm⟩

/-- And it is what soundness takes. -/
theorem ExtentSound.plain (root : ExtentRoot inode) (sound : ExtentSound unwritten inode) :
    ExtentPlain unwritten inode := by
  -- all extents are read where nothing is found
  have read_all : ∀ i < rd16 inode ehEntries, extentRead inode (2 ^ 32 - 1) i :=
    fun i lt => ⟨lt, fun j _ => extentHit_last⟩
  have few : rd16 inode ehEntries ≤ 4 := by
    by_contra many
    have := sound.inside.2 4 (by omega)
    unfold extentAt at this
    omega
  have logical : ∀ i < rd16 inode ehEntries, eeLen inode i ≠ 0 →
      eeBlock inode i + eeLen inode i < 2 ^ 32 :=
    fun i lt some_len => (sound.sums _ (by decide) i (read_all i lt) some_len).1
  have start_lt : ∀ i, eeBlock inode i < 2 ^ 32 := fun i => rd32_lt
  -- the format maps the first block of an extent of 32768, the code skips it
  have not_full : ∀ i < rd16 inode ehEntries, eeRawLen inode i ≠ 32768 := by
    intro i lt full
    have covers : ExtentCovers unwritten inode (eeBlock inode i) i := by
      refine ⟨lt, by omega, le_refl _, ?_⟩
      simp [lengthBlocks, full]
    have eq := (sound.lookup _ (start_lt i) _).mpr ⟨i, covers, rfl⟩
    obtain ⟨j, lt', hit⟩ := (root.lookup_eq_some_iff few).mp eq
    obtain ⟨some_len, ge, within⟩ := extentHit_some hit
    have most := eeLen_le_lengthBlocks inode j
    obtain rfl := root.eq_of_common few lt lt'
      ⟨le_refl _, by simp [lengthBlocks, full]⟩ ⟨ge, by omega⟩
    rw [eeLen_eq, full] at some_len
    exact some_len (by decide)
  constructor
  case few => exact few
  case logical => exact logical
  case physical =>
    intro i lt some_len
    have fits := logical i lt some_len
    have last : extentHit inode (eeBlock inode i + eeLen inode i - 1) i = some _ :=
      extentHit_eq_some fits (by omega) (by omega)
    have read : extentRead inode (eeBlock inode i + eeLen inode i - 1) i := by
      refine ⟨lt, ?_⟩
      intro j before
      by_contra hit
      have same := root.hit_unique few j (by omega) i lt hit (by rw [last]; simp)
      omega
    have := (sound.sums _ (by omega) i read some_len).2 (by omega) (by omega)
    omega
  case length =>
    intro i lt
    refine ⟨not_full i lt, ?_⟩
    rintro rfl
    by_contra large
    have full := not_full i lt
    have raw := eeRawLen_lt inode i
    have some_len : eeLen inode i ≠ 0 := by
      rw [eeLen_eq]
      omega
    have mapped : eeLen inode i ≤ lengthBlocks true (eeRawLen inode i) := eeLen_le_lengthBlocks inode i
    -- the code finds the first block of the unwritten extent
    have hit := extentHit_eq_some (logical i lt some_len)
      (le_refl _) (by omega)
    have eq := (root.lookup_eq_some_iff few).mpr ⟨i, lt, hit⟩
    obtain ⟨j, ⟨lt', -, ge, within⟩, -⟩ := (sound.lookup _ (start_lt i) _).mp eq
    have most := lengthBlocks_le false (eeRawLen inode j)
    obtain rfl := root.eq_of_common few lt lt'
      ⟨le_refl _, by omega⟩ ⟨ge, by omega⟩
    have none_here : lengthBlocks false (eeRawLen inode i) = 0 := by
      unfold lengthBlocks
      rw [if_neg (by omega)]
      rfl
    omega

/-- For every root node: lookup and release follow the format exactly if it has at most four
extents, no length that the mask of 15 bits alters, and ends below 2^32 blocks. -/
theorem extent_lookup_iff (root : ExtentRoot inode) :
    ∀ unwritten, ExtentSound unwritten inode ↔ ExtentPlain unwritten inode :=
  fun _ => ⟨fun sound => sound.plain root, fun plain => plain.sound root⟩

/-- An inode with one extent: `len` blocks as stored, from the block 1000 on. -/
def oneExtentInode (len : Nat) : Bytes :=
  let inode := wr32 (fun _ => 0) inFlags ext4ExtentsFl
  let inode := wr16 (ext4ExtentInit inode) ehEntries 1
  wr32 (wr16 inode (extentAt 0 + 4) len) (extentAt 0 + 8) 1000

/-- What is stored for the extent leaves the header alone. -/
theorem oneExtentInode_header (len : Nat) {o : Nat} (header : o + 2 ≤ extentAt 0 + 4) :
    rd16 (oneExtentInode len) o =
      rd16 (wr16 (ext4ExtentInit (wr32 (fun _ => 0) inFlags ext4ExtentsFl)) ehEntries 1) o := by
  unfold oneExtentInode
  rw [rd16_wr32_of_apart (.inl (by omega)), rd16_wr16_of_apart (.inl header)]

theorem oneExtentInode_root (len : Nat) : ExtentRoot (oneExtentInode len) where
  uses := by
    have flags : rd32 (oneExtentInode len) inFlags = ext4ExtentsFl := by
      unfold oneExtentInode ext4ExtentInit
      rw [rd32_wr32_of_apart (.inl (by decide)), rd32_wr16_of_apart (.inl (by decide)),
        rd32_wr16_of_apart (.inl (by decide)), rd32_wr32_of_apart (.inl (by decide)),
        rd32_wr16_of_apart (.inl (by decide)), rd32_wr16_of_apart (.inl (by decide)),
        rd32_wr16_of_apart (.inl (by decide)), rd32_wr16_of_apart (.inl (by decide)),
        rd32_splice_of_apart (.inl (by decide)), rd32_wr32 (by decide)]
    unfold ext4InodeUsesExtents
    rw [flags]
    decide
  magic := by
    rw [oneExtentInode_header len (by decide)]
    decide
  depth := by
    rw [oneExtentInode_header len (by decide)]
    decide
  sorted := by
    intro i j lt count _
    have one : rd16 (oneExtentInode len) ehEntries = 1 := by
      rw [oneExtentInode_header len (by decide)]
      decide
    omega

/-- An extent of 32768 blocks, the most there can be, is a hole. -/
theorem full_extent_hole :
    ¬ ∀ inode, ExtentRoot inode → ∀ unwritten, ExtentSound unwritten inode := by
  intro sound
  have root := oneExtentInode_root 32768
  have plain := (sound _ root true).plain root
  exact (plain.length 0 (by decide)).1 (by decide)

/-- An extent of five blocks. -/
theorem extent_lookup_five : ExtentSound true (oneExtentInode 5) ↔
    ExtentPlain true (oneExtentInode 5) :=
  extent_lookup_iff (oneExtentInode_root 5) true

end NTux.Ext
