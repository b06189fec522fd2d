import NTux.Ext.FileFill

/-!
# Filling an inode

The direct, the single indirect and the double indirect part of
`ext2_inode_write_data`, one after the other.  `FilledInode` says what comes out: where
each block of the file lies (`filePtr`), that it holds its part of the data, and that
the inode refers to the blocks allocated for it and to no others.
-/

namespace NTux.Ext

open NTux.Lib NTux.Lib.Bytes

variable {fs : ExtFs} {d d' : Volume} {reader : Reader} {data : Bytes} {len N : Nat}

/-- The block of the disk that holds the block `f` of a file. -/
def filePtr (fs : ExtFs) (d : Volume) (inode : Bytes) (f : Nat) : Nat :=
  if f < 12 then inodePtr inode f
  else if f < 12 + fs.ptrs then blockPtr (d (inodePtr inode 12)) (f - 12)
  else rowPtr fs d (d (inodePtr inode 13)) (12 + fs.ptrs) f

/-! ## The single indirect part -/

/-- The single indirect part has been filled. -/
structure FilledSingle (fs : ExtFs) (data : Bytes) (len N : Nat) (s : Filling) (inode : Bytes)
    (inds : List Nat) (s' : Filling) (inode' : Bytes) : Prop where
  filled : Filled fs data len s (min N 12) (min (N - 12) fs.ptrs)
    (fun f => blockPtr (s'.vol (inodePtr inode' 12)) (f - 12)) inds s'
  kept : ∀ k, k < 88 ∨ 92 ≤ k → inode' k = inode k
  set : 12 < N → inodePtr inode' 12 ∈ inds ∧
    ∀ i, min (N - 12) fs.ptrs ≤ i → blockPtr (s'.vol (inodePtr inode' 12)) i = 0
  only : ∀ x ∈ inds, 12 < N ∧ x = inodePtr inode' 12
  unset : N ≤ 12 → inodePtr inode' 12 = inodePtr inode 12

theorem extFillSinglePart_fills (supplies : Supplies reader data len) {s : Filling}
    (inode : Bytes) (ok : Consistent fs s.vol) (off : s.off = min len (min N 12 * fs.blockSize)) :
    FillsTo fs reader s.vol (fun r : Filling × Bytes =>
        ∃ inds, FilledSingle fs data len N s inode inds r.1 r.2)
      (extFillSinglePart fs reader len N s inode) := by
  unfold extFillSinglePart
  split
  next few =>
    have none : min (N - 12) fs.ptrs = 0 := by omega
    refine ⟨[], ?_, fun k _ => rfl, fun lt => by omega, by simp, fun _ => rfl⟩
    rw [none]
    exact .refl ok off
  next more =>
    have first : min N 12 = 12 := by omega
    rw [first] at off
    refine (extFillIndirect_fills supplies ok off).bind ?_
    rintro ⟨b, s'⟩ ⟨filled, zeros⟩
    dsimp only at filled zeros ⊢
    have ptr : inodePtr (wr32 inode (inBlock + 48) b) 12 = b :=
      rd32_wr32 (filled.grown.lt_word ok
        (List.mem_append_right _ (List.mem_singleton.2 rfl)))
    refine ⟨[b], ?_, fun k apart => ?_, fun _ => ?_, fun x mem => ?_, fun le => absurd le more⟩
    · show Filled fs data len s _ _
        (fun f => blockPtr (s'.vol (inodePtr (wr32 inode (inBlock + 48) b) 12)) (f - 12)) [b] s'
      rw [ptr, first]
      exact filled
    · exact wr32_of_apart (by unfold inBlock; omega)
    · show inodePtr (wr32 inode (inBlock + 48) b) 12 ∈ [b] ∧
        ∀ i, _ → blockPtr (s'.vol (inodePtr (wr32 inode (inBlock + 48) b) 12)) i = 0
      rw [ptr]
      exact ⟨List.mem_singleton.2 rfl, zeros⟩
    · exact ⟨by omega, (List.mem_singleton.1 mem).trans ptr.symm⟩

/-! ## The double indirect part -/

/-- The double indirect part has been filled. -/
structure FilledDouble (fs : ExtFs) (data : Bytes) (len N : Nat) (s : Filling) (inode : Bytes)
    (inds : List Nat) (s' : Filling) (inode' : Bytes) : Prop where
  filled : Filled fs data len s (min N (12 + fs.ptrs)) (N - (12 + fs.ptrs))
    (rowPtr fs s'.vol (s'.vol (inodePtr inode' 13)) (12 + fs.ptrs)) inds s'
  kept : ∀ k, k < 92 ∨ 96 ≤ k → inode' k = inode k
  set : 12 + fs.ptrs < N → inodePtr inode' 13 ∈ inds
  rows : 12 + fs.ptrs < N → ∀ i, i * fs.ptrs < N - (12 + fs.ptrs) →
    blockPtr (s'.vol (inodePtr inode' 13)) i ∈ inds
  tail : 12 + fs.ptrs < N → ∀ i, blockPtr (s'.vol (inodePtr inode' 13)) i = 0 ∨
    (blockPtr (s'.vol (inodePtr inode' 13)) i ∈ inds ∧
      ∀ t, t < fs.ptrs → N - (12 + fs.ptrs) ≤ i * fs.ptrs + t →
        blockPtr (s'.vol (blockPtr (s'.vol (inodePtr inode' 13)) i)) t = 0)
  only : ∀ x ∈ inds, 12 + fs.ptrs < N ∧ (x = inodePtr inode' 13 ∨
    ∃ i, i * fs.ptrs < N - (12 + fs.ptrs) ∧ x = blockPtr (s'.vol (inodePtr inode' 13)) i)
  unset : N ≤ 12 + fs.ptrs → inodePtr inode' 13 = inodePtr inode 13

theorem extFillDoublePart_fills (supplies : Supplies reader data len) (pos : 0 < fs.ptrs)
    {s : Filling} (inode : Bytes) (ok : Consistent fs s.vol)
    (off : s.off = min len (min N (12 + fs.ptrs) * fs.blockSize)) :
    FillsTo fs reader s.vol (fun r : Filling × Bytes =>
        ∃ inds, FilledDouble fs data len N s inode inds r.1 r.2)
      (extFillDoublePart fs reader len N s inode) := by
  unfold extFillDoublePart
  split
  next few =>
    have none : N - (12 + fs.ptrs) = 0 := by omega
    refine ⟨[], ?_, fun k _ => rfl, fun lt => by omega, fun lt => by omega, fun lt => by omega,
      by simp, fun _ => rfl⟩
    rw [none]
    exact .refl ok off
  next more =>
    have first : min N (12 + fs.ptrs) = 12 + fs.ptrs := by omega
    rw [first] at off
    refine (fillsTo_allocBlock ok).bind ?_
    rintro ⟨b, d⟩ grown
    dsimp only at grown ⊢
    have inner := extFillDouble_fills supplies pos (12 + fs.ptrs)
      (N - 12 - fs.ptrs) 0 (N - 12 - fs.ptrs) ⟨d, s.off, s.total + 1⟩ (fun _ => 0)
      grown.consistent (Nat.le_refl _) (by
        rw [Nat.zero_mul, Nat.add_zero]
        exact off)
    refine (inner.after grown).bind ?_
    rintro ⟨s₁, ind2⟩ ⟨m, rows⟩
    dsimp only at rows ⊢
    have filled := rows.filled
    rw [Nat.zero_mul, Nat.add_zero] at filled
    have all := grown.trans filled.grown
    have apart : b ∉ (List.range' (12 + fs.ptrs) (N - 12 - fs.ptrs)).map
        (rowPtr fs s₁.vol ind2 (12 + fs.ptrs)) ++ (List.range' 0 m).map (blockPtr ind2) :=
      (List.nodup_cons.1 all.nodup).1
    have written := all.write ok (List.mem_cons_self ..) ind2
    have ltB : b < 4294967296 := grown.lt_word ok (List.mem_singleton.2 rfl)
    have ptr : inodePtr (wr32 inode (inBlock + 52) b) 13 = b := rd32_wr32 ltB
    have self : extWriteBlock s₁.vol b ind2 b = ind2 := Function.update_self ..
    have memRow : ∀ i, i < m → blockPtr ind2 i ∈ (List.range' 0 m).map (blockPtr ind2) :=
      fun i lt => List.mem_map.2 ⟨i, List.mem_range'_1.2 ⟨by omega, by omega⟩, rfl⟩
    -- the rows lie apart from the block that points to them
    have row : ∀ i, i < m → extWriteBlock s₁.vol b ind2 (blockPtr ind2 i) =
        s₁.vol (blockPtr ind2 i) := by
      refine fun i lt => Function.update_of_ne (fun eq => apart ?_) _ _
      rw [← eq]
      exact List.mem_append_right _ (memRow i lt)
    have rest : N - 12 - fs.ptrs = N - (12 + fs.ptrs) := by omega
    rw [rest] at filled rows
    have within : ∀ f, f - (12 + fs.ptrs) < N - (12 + fs.ptrs) →
        (f - (12 + fs.ptrs)) / fs.ptrs < m := fun f lt => by
      have enough := rows.enough
      rw [Nat.div_lt_iff_lt_mul pos]
      omega
    have place : ∀ f, 12 + fs.ptrs ≤ f → f < 12 + fs.ptrs + (N - (12 + fs.ptrs)) →
        rowPtr fs (extWriteBlock s₁.vol b ind2) ind2 (12 + fs.ptrs) f =
          rowPtr fs s₁.vol ind2 (12 + fs.ptrs) f := by
      intro f le lt
      unfold rowPtr
      rw [row _ (within f (by omega))]
    refine ⟨b :: (List.range' 0 m).map (blockPtr ind2), ?_⟩
    have result : FilledDouble fs data len N s inode (b :: (List.range' 0 m).map (blockPtr ind2))
        ⟨extWriteBlock s₁.vol b ind2, s₁.off, s₁.total⟩ (wr32 inode (inBlock + 52) b) := by
      refine ⟨?_, fun k apart => ?_, fun _ => ?_, fun _ i lt => ?_, fun _ i => ?_,
        fun x mem => ⟨by omega, ?_⟩, fun le => absurd le more⟩
      · rw [first, ptr]
        dsimp only
        rw [self]
        refine Filled.congr (p := rowPtr fs s₁.vol ind2 (12 + fs.ptrs))
          ⟨?_, fun f le lt => ?_, filled.off, ?_⟩ place
        · refine written.perm ?_
          rw [rest, Nat.add_zero, List.singleton_append]
          exact List.perm_middle.symm
        · refine (filled.holds f le lt).congr (Function.update_of_ne (fun eq => apart ?_) _ _)
          rw [← eq, rest]
          exact List.mem_append_left _ (List.mem_map.2 ⟨f, List.mem_range'_1.2 ⟨le, lt⟩, rfl⟩)
        · show s₁.total = _
          rw [filled.total, List.length_cons]
          show s.total + 1 + _ + _ = _
          omega
      · exact wr32_of_apart (by unfold inBlock; omega)
      · rw [ptr]
        exact List.mem_cons_self ..
      · rw [ptr]
        dsimp only
        rw [self]
        have ltM : i < m := by
          have enough := rows.enough
          by_contra le
          have more := Nat.mul_le_mul_right fs.ptrs (Nat.le_of_not_lt le)
          omega
        exact List.mem_cons_of_mem _ (memRow i ltM)
      · rw [ptr]
        dsimp only
        rw [self]
        rcases Nat.lt_or_ge i m with ltM | geM
        · refine .inr ⟨List.mem_cons_of_mem _ (memRow i ltM), fun t ltT out => ?_⟩
          rw [row i ltM]
          exact rows.tail i (by omega) (by omega) t (by omega) ltT
        · refine .inl ?_
          rw [blockPtr, ← show rd32 (fun _ => 0) (4 * i) = 0 from rfl]
          exact rd32_congr fun k _ => rows.kept _ (by omega)
      · rw [ptr]
        dsimp only
        rw [self]
        refine (List.mem_cons.1 mem).imp id fun inRows => ?_
        obtain ⟨i, lt, rfl⟩ := List.mem_map.1 inRows
        have ltM := (List.mem_range'_1.1 lt).2
        refine ⟨i, ?_, rfl⟩
        rcases rows.notMore with rfl | few
        · omega
        · exact Nat.lt_of_le_of_lt (Nat.mul_le_mul_right _ (by omega)) few
    exact result

/-! ## The whole inode -/

/-- The inode has been filled with `N` blocks of data. -/
structure FilledInode (fs : ExtFs) (data : Bytes) (len N : Nat) (d : Volume) (inode : Bytes)
    (inds : List Nat) (d' : Volume) (inode' : Bytes) : Prop where
  grown : Grown fs d ((List.range' 0 N).map (filePtr fs d' inode') ++ inds) d'
  holds : ∀ f, f < N → Holds fs data len d' f (filePtr fs d' inode' f)
  single : 12 < N → inodePtr inode' 12 ∈ inds ∧
    ∀ i, min (N - 12) fs.ptrs ≤ i → blockPtr (d' (inodePtr inode' 12)) i = 0
  double : 12 + fs.ptrs < N → inodePtr inode' 13 ∈ inds
  rows : 12 + fs.ptrs < N → ∀ i, i * fs.ptrs < N - (12 + fs.ptrs) →
    blockPtr (d' (inodePtr inode' 13)) i ∈ inds
  tail : 12 + fs.ptrs < N → ∀ i, blockPtr (d' (inodePtr inode' 13)) i = 0 ∨
    (blockPtr (d' (inodePtr inode' 13)) i ∈ inds ∧
      ∀ t, t < fs.ptrs → N - (12 + fs.ptrs) ≤ i * fs.ptrs + t →
        blockPtr (d' (blockPtr (d' (inodePtr inode' 13)) i)) t = 0)
  only : ∀ x ∈ inds, (12 < N ∧ x = inodePtr inode' 12) ∨ (12 + fs.ptrs < N ∧
    (x = inodePtr inode' 13 ∨
      ∃ i, i * fs.ptrs < N - (12 + fs.ptrs) ∧ x = blockPtr (d' (inodePtr inode' 13)) i))
  unset : ∀ j, j < 14 → (j < 12 → N ≤ j) → (j = 12 → N ≤ 12) → (j = 13 → N ≤ 12 + fs.ptrs) →
    inodePtr inode' j = inodePtr inode j
  size : rd32 inode' inSize = len % 2 ^ 32
  blocks : rd32 inode' inBlocks = (N + inds.length) * (fs.blockSize / 512) % 2 ^ 32
  kept : ∀ k, k < 4 ∨ (8 ≤ k ∧ k < 28) ∨ (32 ≤ k ∧ k < 40) ∨ 96 ≤ k → inode' k = inode k

/-- **A cleared inode is filled, or no block can be allocated.** -/
theorem extFillInode_fills (supplies : Supplies reader data len) (pos : 0 < fs.ptrs)
    (inode : Bytes) (ok : Consistent fs d) :
    FillsTo fs reader d (fun r : Volume × Bytes =>
        ∃ inds, FilledInode fs data len (fs.needed len) d inode inds r.1 r.2)
      (extFillInode fs reader len d inode) := by
  unfold extFillInode
  generalize fs.needed len = N
  have direct := extFillBlocks_fills supplies 0 inBlock (min N 12) 0 ⟨d, 0, 0⟩ inode ok (by simp)
  refine direct.bind ?_
  rintro ⟨s₁, inode₁⟩ ⟨filled₁, kept₁⟩
  dsimp only at filled₁ kept₁ ⊢
  have single := extFillSinglePart_fills (N := N) supplies inode₁
    filled₁.grown.consistent (by
      rw [filled₁.off]
      simp)
  refine (single.after filled₁.grown).bind ?_
  rintro ⟨s₂, inode₂⟩ ⟨inds₂, part₂⟩
  dsimp only at part₂ ⊢
  have double := extFillDoublePart_fills (N := N) supplies pos inode₂
    part₂.filled.grown.consistent (by
      rw [part₂.filled.off]
      congr 2
      omega)
  refine ((double.after part₂.filled.grown).after filled₁.grown).bind ?_
  rintro ⟨s₃, inode₃⟩ ⟨inds₃, part₃⟩
  dsimp only at part₃
  refine ⟨inds₂ ++ inds₃, ?_⟩
  dsimp only
  -- the pointers of the earlier parts stay
  have ptr₁ : ∀ j, j < 12 → inodePtr inode₃ j = inodePtr inode₁ j := fun j lt =>
    rd32_congr fun i _ => by
      rw [part₃.kept _ (by unfold inBlock; omega), part₂.kept _ (by unfold inBlock; omega)]
  have ptr₂ : inodePtr inode₃ 12 = inodePtr inode₂ 12 :=
    rd32_congr fun i _ => part₃.kept _ (by unfold inBlock; omega)
  have ind₂ : 12 < N → s₃.vol (inodePtr inode₂ 12) = s₂.vol (inodePtr inode₂ 12) := fun lt =>
    part₂.filled.grown.keeps filled₁.grown.consistent part₃.filled.grown
      (List.mem_append_right _ (part₂.set lt).1)
  have first : Filled fs data len ⟨d, 0, 0⟩ 0 (min N 12 + min (N - 12) fs.ptrs)
      (filePtr fs s₃.vol inode₃) ([] ++ inds₂) s₂ := by
    have second := part₂.filled
    rw [show min N 12 = 0 + 0 + min N 12 by omega] at second
    refine Filled.append ok filled₁ second (fun f _ lt => ?_) fun f le lt => ?_
    · unfold filePtr
      rw [if_pos (by omega), ptr₁ f (by omega)]
      rfl
    · unfold filePtr
      rw [if_neg (by omega), if_pos (by omega), ptr₂, ind₂ (by omega)]
  have all : Filled fs data len ⟨d, 0, 0⟩ 0
      (min N 12 + min (N - 12) fs.ptrs + (N - (12 + fs.ptrs)))
      (filePtr fs s₃.vol inode₃) ([] ++ inds₂ ++ inds₃) s₃ := by
    have third := part₃.filled
    rw [show min N (12 + fs.ptrs) = 0 + (min N 12 + min (N - 12) fs.ptrs) by omega] at third
    refine Filled.append ok first third (fun f _ _ => rfl) fun f le lt => ?_
    unfold filePtr
    rw [if_neg (by omega), if_neg (by omega)]
  have size : min N 12 + min (N - 12) fs.ptrs + (N - (12 + fs.ptrs)) = N := by omega
  rw [size, List.nil_append] at all
  have total : s₃.total = N + (inds₂ ++ inds₃).length := by
    have eq := all.total
    simpa using eq
  -- the size and the block count are apart from the pointers
  have place : filePtr fs s₃.vol (setSize inode₃ len (s₃.total * (fs.blockSize / 512))) =
      filePtr fs s₃.vol inode₃ := by
    funext f
    unfold filePtr
    simp only [inodePtr_setSize]
  refine ⟨?_, fun f lt => ?_, fun lt => ?_, fun lt => ?_, fun lt i row => ?_, fun lt i => ?_,
    fun x mem => ?_, fun j lt few₁ few₂ few₃ => ?_, ?_, ?_, fun k apart => ?_⟩
  · rw [place]
    exact all.grown
  · rw [place]
    exact all.holds f (Nat.zero_le f) (by omega)
  · obtain ⟨mem, zeros⟩ := part₂.set lt
    rw [inodePtr_setSize, ptr₂, ind₂ lt]
    exact ⟨List.mem_append_left _ mem, zeros⟩
  · rw [inodePtr_setSize]
    exact List.mem_append_right _ (part₃.set lt)
  · rw [inodePtr_setSize]
    exact List.mem_append_right _ (part₃.rows lt i row)
  · rw [inodePtr_setSize]
    exact (part₃.tail lt i).imp id fun row => ⟨List.mem_append_right _ row.1, row.2⟩
  · rw [inodePtr_setSize, inodePtr_setSize, ptr₂]
    exact (List.mem_append.1 mem).imp (part₂.only x) (part₃.only x)
  · rw [inodePtr_setSize]
    have early : ∀ j, j < 14 → (j < 12 → N ≤ j) → inodePtr inode₁ j = inodePtr inode j :=
      fun j lt few => rd32_congr fun i _ => kept₁ _ (by omega)
    rcases Nat.lt_or_ge j 12 with before | after
    · rw [ptr₁ j before, early j lt few₁]
    · rcases Nat.eq_or_lt_of_le after with rfl | last
      · rw [ptr₂, part₂.unset (few₂ rfl), early 12 lt few₁]
      · obtain rfl : j = 13 := by omega
        rw [part₃.unset (few₃ rfl), ← early 13 lt few₁]
        exact rd32_congr fun i _ => part₂.kept _ (by unfold inBlock; omega)
  · unfold setSize
    rw [rd32_wr32_of_apart (by decide), rd32_wr32_mod]
    rfl
  · unfold setSize
    rw [rd32_wr32_mod, total]
    rfl
  · rw [setSize_of_apart (by omega), part₃.kept k (by omega), part₂.kept k (by omega),
      kept₁ k (by unfold inBlock; omega)]

namespace FilledInode

variable {inode inode' : Bytes} {inds : List Nat}

/-- An empty file has no blocks. -/
theorem zero (ok : Consistent fs d) :
    FilledInode fs data 0 0 d inode [] d (setSize inode 0 0) where
  grown := .refl ok
  holds f lt := by omega
  single lt := by omega
  double lt := by omega
  rows lt := by omega
  tail lt := by omega
  only := by simp
  unset j _ _ _ _ := inodePtr_setSize
  size := by
    unfold setSize
    rw [rd32_wr32_of_apart (by decide)]
    exact rd32_wr32_zero
  blocks := by
    unfold setSize
    rw [rd32_wr32_zero]
    simp
  kept k apart := setSize_of_apart (by omega)

/-- What the inode refers to is what was allocated for it. -/
theorem mem_fileRefs (ok : Consistent fs d)
    (filled : FilledInode fs data len N d inode inds d' inode')
    (cleared : ∀ j, j < 14 → (j < 12 → N ≤ j) → inodePtr inode j = 0) (pos : 0 < fs.ptrs)
    (most : N ≤ fs.maxBlocks) {x : Nat} :
    x ∈ fileRefs fs d' inode' ↔ x ∈ (List.range' 0 N).map (filePtr fs d' inode') ++ inds := by
  have null : ∀ j, j < 14 → (j < 12 → N ≤ j) → (j = 12 → N ≤ 12) →
      (j = 13 → N ≤ 12 + fs.ptrs) → inodePtr inode' j = 0 := fun j lt a b c =>
    (filled.unset j lt a b c).trans (cleared j lt a)
  have new : ∀ f, f < N → filePtr fs d' inode' f ∈
      (List.range' 0 N).map (filePtr fs d' inode') ++ inds := fun f lt =>
    List.mem_append_left _ (List.mem_map.2 ⟨f, List.mem_range'_1.2 ⟨Nat.zero_le f, by omega⟩, rfl⟩)
  unfold fileRefs
  rw [List.mem_append, List.mem_append]
  constructor
  · rintro (direct | single | double)
    · obtain ⟨ne, j, -, lt, rfl⟩ := mem_livePtrs.1 direct
      rcases Nat.lt_or_ge j N with inside | outside
      · have mem := new j inside
        unfold filePtr at mem
        rwa [if_pos (by omega)] at mem
      · exact absurd (null j (by omega) (fun _ => outside) (by omega) (by omega)) ne
    · unfold singlePart at single
      split at single
      · exact absurd single (by simp)
      next set =>
        have more : 12 < N := by
          by_contra le
          exact set (null 12 (by omega) (by omega) (by omega) (by omega))
        rcases List.mem_append.1 single with row | here
        · obtain ⟨ne, j, -, lt, rfl⟩ := mem_livePtrs.1 row
          rcases Nat.lt_or_ge j (min (N - 12) fs.ptrs) with inside | outside
          · have mem := new (12 + j) (by omega)
            unfold filePtr at mem
            rwa [if_neg (by omega), if_pos (by omega), Nat.add_sub_cancel_left] at mem
          · exact absurd ((filled.single more).2 j outside) ne
        · rw [List.mem_singleton.1 here]
          exact List.mem_append_right _ (filled.single more).1
    · unfold doublePart at double
      split at double
      · exact absurd double (by simp)
      next set =>
        have more : 12 + fs.ptrs < N := by
          by_contra le
          exact set (null 13 (by omega) (by omega) (by omega) (by omega))
        rcases List.mem_append.1 double with rows | here
        · obtain ⟨b, memB, row⟩ := List.mem_flatMap.1 rows
          obtain ⟨neB, i, -, ltI, rfl⟩ := mem_livePtrs.1 memB
          rcases filled.tail more i with zero | ⟨mem, tail⟩
          · exact absurd zero neB
          · rcases List.mem_append.1 row with entry | here
            · obtain ⟨ne, t, -, ltT, rfl⟩ := mem_livePtrs.1 entry
              rcases Nat.lt_or_ge (i * fs.ptrs + t) (N - (12 + fs.ptrs)) with inside | outside
              · have memF := new (12 + fs.ptrs + (i * fs.ptrs + t)) (by omega)
                obtain ⟨div, mod⟩ := row_place i (show t < fs.ptrs by omega)
                unfold filePtr at memF
                rwa [if_neg (by omega), if_neg (by omega), rowPtr, Nat.add_sub_cancel_left, div,
                  mod] at memF
              · exact absurd (tail t (by omega) outside) ne
            · rw [List.mem_singleton.1 here]
              exact List.mem_append_right _ mem
        · rw [List.mem_singleton.1 here]
          exact List.mem_append_right _ (filled.double more)
  · intro mem
    have ne := filled.grown.ne_zero ok mem
    have inSingle : 12 < N → inodePtr inode' 12 ≠ 0 := fun lt =>
      filled.grown.ne_zero ok (List.mem_append_right _ (filled.single lt).1)
    have inDouble : 12 + fs.ptrs < N → inodePtr inode' 13 ≠ 0 := fun lt =>
      filled.grown.ne_zero ok (List.mem_append_right _ (filled.double lt))
    -- a row of the double indirect block is one of its pointers
    have row : 12 + fs.ptrs < N → ∀ i, i * fs.ptrs < N - (12 + fs.ptrs) →
        blockPtr (d' (inodePtr inode' 13)) i ∈
          livePtrs (blockPtr (d' (inodePtr inode' 13))) 0 fs.ptrs := by
      intro lt i inside
      refine mem_livePtrs.2 ⟨filled.grown.ne_zero ok (List.mem_append_right _
        (filled.rows lt i inside)), i, Nat.zero_le i, ?_, rfl⟩
      unfold ExtFs.maxBlocks at most
      by_contra le
      have more := Nat.mul_le_mul_right fs.ptrs (show fs.ptrs ≤ i by omega)
      omega
    rcases List.mem_append.1 mem with block | ind
    · obtain ⟨f, lt, rfl⟩ := List.mem_map.1 block
      have ltF := (List.mem_range'_1.1 lt).2
      unfold filePtr at ne ⊢
      split
      next first =>
        rw [if_pos first] at ne
        exact .inl (mem_livePtrs.2 ⟨ne, f, Nat.zero_le f, by omega, rfl⟩)
      next notFirst =>
        rw [if_neg notFirst] at ne
        split
        next second =>
          rw [if_pos second] at ne
          refine .inr (.inl ?_)
          unfold singlePart
          rw [if_neg (inSingle (by omega))]
          exact List.mem_append_left _ (mem_livePtrs.2 ⟨ne, _, Nat.zero_le _, by omega, rfl⟩)
        next third =>
          rw [if_neg third] at ne
          refine .inr (.inr ?_)
          unfold doublePart
          rw [if_neg (inDouble (by omega))]
          refine List.mem_append_left _ (List.mem_flatMap.2 ⟨_, row (by omega) _ ?_,
            List.mem_append_left _ (mem_livePtrs.2 ⟨ne, _, Nat.zero_le _, ?_, rfl⟩)⟩)
          · have le := Nat.div_mul_le_self (f - (12 + fs.ptrs)) fs.ptrs
            omega
          · rw [Nat.zero_add]
            exact Nat.mod_lt _ pos
    · rcases filled.only x ind with ⟨more, rfl⟩ | ⟨more, rfl | ⟨i, inside, rfl⟩⟩
      · refine .inr (.inl ?_)
        unfold singlePart
        rw [if_neg (inSingle more)]
        exact List.mem_append_right _ (List.mem_singleton.2 rfl)
      · refine .inr (.inr ?_)
        unfold doublePart
        rw [if_neg (inDouble more)]
        exact List.mem_append_right _ (List.mem_singleton.2 rfl)
      · refine .inr (.inr ?_)
        unfold doublePart
        rw [if_neg (inDouble more)]
        exact List.mem_append_left _ (List.mem_flatMap.2 ⟨_, row more i inside,
          List.mem_append_right _ (List.mem_singleton.2 rfl)⟩)

/-- A file has few blocks of pointers. -/
theorem inds_length (filled : FilledInode fs data len N d inode inds d' inode')
    (most : N ≤ fs.maxBlocks) : inds.length ≤ fs.ptrs + 2 := by
  have nodup := (List.nodup_append.1 filled.grown.nodup).2.1
  have sub : inds ⊆ inodePtr inode' 12 :: inodePtr inode' 13 ::
      (List.range fs.ptrs).map (blockPtr (d' (inodePtr inode' 13))) := by
    intro x mem
    rcases filled.only x mem with ⟨-, rfl⟩ | ⟨-, rfl | ⟨i, inside, rfl⟩⟩
    · exact List.mem_cons_self ..
    · exact List.mem_cons_of_mem _ (List.mem_cons_self ..)
    · refine List.mem_cons_of_mem _ (List.mem_cons_of_mem _ (List.mem_map.2
        ⟨i, List.mem_range.2 ?_, rfl⟩))
      unfold ExtFs.maxBlocks at most
      by_contra le
      have more := Nat.mul_le_mul_right fs.ptrs (Nat.le_of_not_lt le)
      omega
  have le := (List.subperm_of_subset nodup sub).length_le
  simpa using le

/-- No two blocks of the file lie in one block of the disk. -/
theorem filePtr_inj (filled : FilledInode fs data len N d inode inds d' inode') {f g : Nat}
    (ltF : f < N) (ltG : g < N) (eq : filePtr fs d' inode' f = filePtr fs d' inode' g) : f = g := by
  have nodup := (List.nodup_append.1 filled.grown.nodup).1
  exact List.inj_on_of_nodup_map nodup (List.mem_range'_1.2 ⟨Nat.zero_le f, by omega⟩)
    (List.mem_range'_1.2 ⟨Nat.zero_le g, by omega⟩) eq

end FilledInode

end NTux.Ext
