import NTux.Ext.FileBlocks

/-!
# Releasing the blocks of a file

`fileRefs` lists the blocks an inode refers to: the data blocks and the blocks of
pointers, in the order in which `ext2_inode_clear_data` releases them.  Where they are
data blocks of the volume, it releases them all or fails after some of them
(`extInodeClearData_releases`), and the cleared inode has no pointers left.
-/

namespace NTux.Ext

open NTux.Lib NTux.Lib.Bytes

variable {fs : ExtFs} {d d' : Volume}

/-! ## What a file refers to -/

/-- The pointers that are set. -/
def live (ptrs : List Nat) : List Nat := ptrs.filter fun b => b ≠ 0

/-- The pointers `p i, …, p (i + n - 1)` that are set. -/
def livePtrs (p : Nat → Nat) (i n : Nat) : List Nat := live ((List.range' i n).map p)

/-- The pointers in a block. -/
def blockPtr (buf : Bytes) (j : Nat) : Nat := rd32 buf (4 * j)

/-- What an indirect block refers to, and the block. -/
def indirectRefs (fs : ExtFs) (d : Volume) (block : Nat) : List Nat :=
  livePtrs (blockPtr (d block)) 0 fs.ptrs ++ [block]

/-- What a double indirect block refers to, and the block. -/
def doubleRefs (fs : ExtFs) (d : Volume) (block : Nat) : List Nat :=
  (livePtrs (blockPtr (d block)) 0 fs.ptrs).flatMap (indirectRefs fs d) ++ [block]

/-- What an inode refers to by its indirect block. -/
def singlePart (fs : ExtFs) (d : Volume) (inode : Bytes) : List Nat :=
  if inodePtr inode 12 = 0 then [] else indirectRefs fs d (inodePtr inode 12)

/-- What an inode refers to by its double indirect block. -/
def doublePart (fs : ExtFs) (d : Volume) (inode : Bytes) : List Nat :=
  if inodePtr inode 13 = 0 then [] else doubleRefs fs d (inodePtr inode 13)

/-- What an inode refers to. -/
def fileRefs (fs : ExtFs) (d : Volume) (inode : Bytes) : List Nat :=
  livePtrs (inodePtr inode) 0 12 ++ (singlePart fs d inode ++ doublePart fs d inode)

theorem livePtrs_succ (p : Nat → Nat) (i n : Nat) :
    livePtrs p i (n + 1) = (if p i = 0 then [] else [p i]) ++ livePtrs p (i + 1) n := by
  unfold livePtrs live
  rw [List.range'_succ, List.map_cons, List.filter_cons]
  by_cases zero : p i = 0 <;> simp [zero]

theorem mem_livePtrs {p : Nat → Nat} {i n x : Nat} :
    x ∈ livePtrs p i n ↔ x ≠ 0 ∧ ∃ j, i ≤ j ∧ j < i + n ∧ p j = x := by
  unfold livePtrs live
  simp only [List.mem_filter, List.mem_map, List.mem_range'_1, decide_eq_true_eq]
  constructor
  · rintro ⟨⟨j, ⟨le, lt⟩, eq⟩, ne⟩
    exact ⟨ne, j, le, lt, eq⟩
  · rintro ⟨ne, j, le, lt, eq⟩
    exact ⟨⟨j, ⟨le, lt⟩, eq⟩, ne⟩

/-- The block of an indirect block is read as it was. -/
theorem indirectRefs_congr {block : Nat} (same : d' block = d block) :
    indirectRefs fs d' block = indirectRefs fs d block := by
  unfold indirectRefs
  rw [same]

theorem doubleRefs_congr {block : Nat} (same : ∀ x ∈ doubleRefs fs d block, d' x = d x) :
    doubleRefs fs d' block = doubleRefs fs d block := by
  have here := same block (List.mem_append_right _ (List.mem_singleton.2 rfl))
  unfold doubleRefs
  rw [here]
  congr 1
  refine List.flatMap_congr fun x mem => indirectRefs_congr (same x ?_)
  refine List.mem_append_left _ (List.mem_flatMap.2 ⟨x, mem, ?_⟩)
  exact List.mem_append_right _ (List.mem_singleton.2 rfl)

theorem singlePart_congr {inode inode' : Bytes} (ptr : inodePtr inode' 12 = inodePtr inode 12)
    (same : ∀ x ∈ singlePart fs d inode, d' x = d x) :
    singlePart fs d' inode' = singlePart fs d inode := by
  unfold singlePart at same ⊢
  rw [ptr]
  split
  · rfl
  next set =>
    rw [if_neg set] at same
    exact indirectRefs_congr (same _ (List.mem_append_right _ (List.mem_singleton.2 rfl)))

theorem doublePart_congr {inode inode' : Bytes} (ptr : inodePtr inode' 13 = inodePtr inode 13)
    (same : ∀ x ∈ doublePart fs d inode, d' x = d x) :
    doublePart fs d' inode' = doublePart fs d inode := by
  unfold doublePart at same ⊢
  rw [ptr]
  split
  · rfl
  next set =>
    rw [if_neg set] at same
    exact doubleRefs_congr same

/-! ## Steps that release -/

/-- The step releases `old`, or fails after some of it. -/
def ReleasesTo {α : Type} (fs : ExtFs) (d : Volume) (old : List Nat) (vol : α → Volume) :
    Except Volume α → Prop
  | .ok a => Released fs d old (vol a)
  | .error d' => ∃ part, part ⊆ old ∧ Released fs d part d'

section Steps

variable {α β : Type} {old old' : List Nat} {vol : α → Volume} {vol' : β → Volume}

theorem ReleasesTo.bind {r : Except Volume α} {f : α → Except Volume β}
    (first : ReleasesTo fs d old vol r)
    (next : ∀ a, r = .ok a → ReleasesTo fs (vol a) old' vol' (f a)) :
    ReleasesTo fs d (old ++ old') vol' (r >>= f) := by
  cases r with
  | error d' =>
      obtain ⟨part, sub, released⟩ := first
      exact ⟨part, List.subset_append_of_subset_left _ sub, released⟩
  | ok a =>
      have second := next a rfl
      show ReleasesTo fs d (old ++ old') vol' (f a)
      cases eq : f a with
      | error d' =>
          rw [eq] at second
          obtain ⟨part, sub, released⟩ := second
          refine ⟨old ++ part, ?_, first.trans released⟩
          exact List.append_subset.2 ⟨List.subset_append_left _ _,
            List.subset_append_of_subset_right _ sub⟩
      | ok b =>
          rw [eq] at second
          exact first.trans second

theorem releasesTo_ok {a : α} (ok : Consistent fs d) (same : vol a = d) :
    ReleasesTo fs d [] vol (.ok a) := by
  show Released fs d [] (vol a)
  rw [same]
  exact .refl ok

theorem releasesTo_freeBlock {x : Nat} (ok : Consistent fs d) (data : DataBlock fs d x) :
    ReleasesTo fs d [x] id (orFail d (extFreeBlock fs d x)) := by
  rcases extFreeBlock_cases ok data with ⟨d', eq, released⟩ | eq
  · rw [eq]
    exact released
  · rw [eq]
    exact ⟨[], List.nil_subset _, .refl ok⟩

/-- A step that passes its result on. -/
theorem ReleasesTo.map {r : Except Volume α} {g : α → β} (first : ReleasesTo fs d old vol r)
    (same : ∀ a, vol' (g a) = vol a) :
    ReleasesTo fs d old vol' (r >>= fun a => .ok (g a)) := by
  cases r with
  | error d' => exact first
  | ok a =>
      show Released fs d old (vol' (g a))
      rw [same a]
      exact first

end Steps

/-! ## The loops -/

theorem extClearPtrs_releases {ind : Bytes} (n j : Nat) {d : Volume} (ok : Consistent fs d)
    (data : ∀ x ∈ livePtrs (blockPtr ind) j n, DataBlock fs d x) :
    ReleasesTo fs d (livePtrs (blockPtr ind) j n) id (extClearPtrs fs ind n j d) := by
  induction n generalizing j d with
  | zero => exact releasesTo_ok ok rfl
  | succ n ih =>
      rw [livePtrs_succ] at data ⊢
      unfold extClearPtrs
      by_cases zero : rd32 ind (4 * j) = 0
      · rw [if_pos zero]
        rw [if_pos (show blockPtr ind j = 0 from zero), List.nil_append] at data ⊢
        exact ih (j + 1) ok data
      · rw [if_neg zero]
        rw [if_neg (show ¬ blockPtr ind j = 0 from zero)] at data ⊢
        have here : DataBlock fs d (blockPtr ind j) := data _ (by simp)
        refine (releasesTo_freeBlock ok here).bind fun d' eq => ?_
        have released : Released fs d [blockPtr ind j] d' := by
          have first := releasesTo_freeBlock ok here
          rw [show orFail d (extFreeBlock fs d (blockPtr ind j)) = .ok d' from eq] at first
          exact first
        exact ih (j + 1) released.consistent fun x mem =>
          released.dataBlock (data x (List.mem_append_right _ mem))

theorem ReleasesTo.of_ok {α : Type} {old : List Nat} {vol : α → Volume} {r : Except Volume α}
    {a : α} (releases : ReleasesTo fs d old vol r) (eq : r = .ok a) :
    Released fs d old (vol a) := by
  rw [eq] at releases
  exact releases

theorem extClearIndirect_releases {block : Nat} (ok : Consistent fs d)
    (data : ∀ x ∈ indirectRefs fs d block, DataBlock fs d x) :
    ReleasesTo fs d (indirectRefs fs d block) id (extClearIndirect fs block d) := by
  have inner := extClearPtrs_releases fs.ptrs 0 ok fun x mem =>
    data x (List.mem_append_left _ mem)
  refine inner.bind fun d' eq => ?_
  have released := inner.of_ok eq
  exact releasesTo_freeBlock released.consistent
    (released.dataBlock (data block (List.mem_append_right _ (List.mem_singleton.2 rfl))))

theorem extClearDouble_releases {ind2 : Bytes} (n i : Nat) {d : Volume} (ok : Consistent fs d)
    (data : ∀ x ∈ (livePtrs (blockPtr ind2) i n).flatMap (indirectRefs fs d), DataBlock fs d x) :
    ReleasesTo fs d ((livePtrs (blockPtr ind2) i n).flatMap (indirectRefs fs d)) id
      (extClearDouble fs ind2 n i d) := by
  induction n generalizing i d with
  | zero => exact releasesTo_ok ok rfl
  | succ n ih =>
      rw [livePtrs_succ] at data ⊢
      unfold extClearDouble
      by_cases zero : rd32 ind2 (4 * i) = 0
      · rw [if_pos zero]
        rw [if_pos (show blockPtr ind2 i = 0 from zero), List.nil_append] at data ⊢
        exact ih (i + 1) ok data
      · rw [if_neg zero]
        rw [if_neg (show ¬ blockPtr ind2 i = 0 from zero), List.flatMap_append,
          List.flatMap_singleton] at data ⊢
        have first := extClearIndirect_releases ok fun x mem =>
          data x (List.mem_append_left _ mem)
        refine first.bind fun d' eq => ?_
        have released := first.of_ok eq
        -- the blocks of pointers that follow are read as they were
        have same : (livePtrs (blockPtr ind2) (i + 1) n).flatMap (indirectRefs fs d) =
            (livePtrs (blockPtr ind2) (i + 1) n).flatMap (indirectRefs fs d') := by
          refine List.flatMap_congr fun x mem => (indirectRefs_congr ?_).symm
          refine released.keeps (data x (List.mem_append_right _ (List.mem_flatMap.2 ⟨x, mem, ?_⟩)))
          exact List.mem_append_right _ (List.mem_singleton.2 rfl)
        rw [same] at data ⊢
        exact ih (i + 1) released.consistent fun x mem =>
          released.dataBlock (data x (List.mem_append_right _ mem))

theorem rd32_wr32_zero {p : Bytes} {o : Nat} : rd32 (wr32 p o 0) o = 0 := rd32_wr32 (by decide)

/-- The loop over the direct pointers releases them, and clears them and nothing else. -/
theorem extClearDirect_releases (n i : Nat) {d : Volume} {inode : Bytes} (ok : Consistent fs d)
    (data : ∀ x ∈ livePtrs (inodePtr inode) i n, DataBlock fs d x) :
    ReleasesTo fs d (livePtrs (inodePtr inode) i n) Prod.fst (extClearDirect fs n i d inode) ∧
      ∀ d' inode', extClearDirect fs n i d inode = .ok (d', inode') →
        (∀ j, i ≤ j → j < i + n → inodePtr inode' j = 0) ∧
          ∀ k, k < inBlock + 4 * i ∨ inBlock + 4 * (i + n) ≤ k → inode' k = inode k := by
  induction n generalizing i d inode with
  | zero =>
      refine ⟨releasesTo_ok ok rfl, ?_⟩
      rintro d' inode' ⟨⟩
      exact ⟨fun j le lt => by omega, fun k _ => rfl⟩
  | succ n ih =>
      rw [livePtrs_succ] at data ⊢
      unfold extClearDirect
      by_cases zero : inodePtr inode i = 0
      · rw [if_pos zero]
        rw [if_pos zero, List.nil_append] at data ⊢
        obtain ⟨releases, result⟩ := ih (i + 1) ok data
        refine ⟨releases, fun d' inode' eq => ?_⟩
        obtain ⟨cleared, kept⟩ := result d' inode' eq
        refine ⟨fun j le lt => ?_, fun k apart => kept k (by omega)⟩
        rcases Nat.eq_or_lt_of_le le with rfl | after
        · rw [← zero]
          exact rd32_congr fun m ltM => kept _ (by omega)
        · exact cleared j after (by omega)
      · rw [if_neg zero]
        rw [if_neg zero] at data ⊢
        have here : DataBlock fs d (inodePtr inode i) := data _ (by simp)
        have first := releasesTo_freeBlock ok here
        -- clearing a pointer leaves those behind it
        have behind : livePtrs (inodePtr (wr32 inode (inBlock + 4 * i) 0)) (i + 1) n =
            livePtrs (inodePtr inode) (i + 1) n := by
          unfold livePtrs
          congr 1
          refine List.map_congr_left fun j mem => rd32_wr32_of_apart (.inr ?_)
          have le := (List.mem_range'_1.1 mem).1
          omega
        have step : ∀ d', orFail d (extFreeBlock fs d (inodePtr inode i)) = .ok d' →
            _ := fun d' eq =>
          ih (i + 1) (first.of_ok eq).consistent
            fun x mem => (first.of_ok eq).dataBlock
              (data x (List.mem_append_right _ (by rwa [behind] at mem)))
        refine ⟨first.bind fun d' eq => ?_, fun d' inode' eq => ?_⟩
        · have releases := (step d' eq).1
          rwa [behind] at releases
        · obtain ⟨d₁, free, eq⟩ := exists_of_bind_ok eq
          obtain ⟨cleared, kept⟩ := (step d₁ free).2 d' inode' eq
          refine ⟨fun j le lt => ?_, fun k apart => ?_⟩
          · rcases Nat.eq_or_lt_of_le le with rfl | after
            · rw [← rd32_wr32_zero (p := inode) (o := inBlock + 4 * i)]
              exact rd32_congr fun m ltM => kept _ (by omega)
            · exact cleared j after (by omega)
          · rw [kept k (by omega)]
            exact wr32_of_apart (by omega)

/-! ## The whole inode -/

/-- The pointers, the size and the block count are cleared, and nothing else. -/
structure ClearedInode (inode inode' : Bytes) : Prop where
  ptrs : ∀ j, j < 14 → inodePtr inode' j = 0
  size : rd32 inode' inSize = 0
  blocks : rd32 inode' inBlocks = 0
  kept : ∀ k, k < 4 ∨ (8 ≤ k ∧ k < 28) ∨ (32 ≤ k ∧ k < 40) ∨ 96 ≤ k → inode' k = inode k

theorem setSize_of_apart {inode : Bytes} {size blocks k : Nat}
    (apart : k < 4 ∨ (8 ≤ k ∧ k < 28) ∨ 32 ≤ k) : setSize inode size blocks k = inode k := by
  unfold setSize inSize inBlocks
  rw [wr32_of_apart (by omega), wr32_of_apart (by omega)]

theorem inodePtr_setSize {inode : Bytes} {size blocks j : Nat} :
    inodePtr (setSize inode size blocks) j = inodePtr inode j :=
  rd32_congr fun i _ => setSize_of_apart (by unfold inBlock; omega)

section Parts

variable {inode : Bytes}

theorem extClearSingle_releases (ok : Consistent fs d)
    (data : ∀ x ∈ singlePart fs d inode, DataBlock fs d x) :
    ReleasesTo fs d (singlePart fs d inode) Prod.fst (extClearSingle fs d inode) ∧
      ∀ d' inode', extClearSingle fs d inode = .ok (d', inode') →
        inodePtr inode' 12 = 0 ∧ ∀ k, k < 88 ∨ 92 ≤ k → inode' k = inode k := by
  unfold singlePart at data ⊢
  unfold extClearSingle
  by_cases zero : inodePtr inode 12 = 0
  · rw [if_pos zero, if_pos zero]
    refine ⟨releasesTo_ok ok rfl, ?_⟩
    rintro d' inode' ⟨⟩
    exact ⟨zero, fun k _ => rfl⟩
  · rw [if_neg zero] at data ⊢
    rw [if_neg zero]
    have first := extClearIndirect_releases ok data
    refine ⟨first.map fun _ => rfl, fun d' inode' eq => ?_⟩
    obtain ⟨d₁, -, eq⟩ := exists_of_bind_ok eq
    obtain ⟨rfl, rfl⟩ := Prod.mk.inj (Except.ok.inj eq)
    exact ⟨rd32_wr32_zero, fun k apart => wr32_of_apart (by unfold inBlock; omega)⟩

theorem extClearDoubles_releases (ok : Consistent fs d)
    (data : ∀ x ∈ doublePart fs d inode, DataBlock fs d x) :
    ReleasesTo fs d (doublePart fs d inode) Prod.fst (extClearDoubles fs d inode) ∧
      ∀ d' inode', extClearDoubles fs d inode = .ok (d', inode') →
        inodePtr inode' 13 = 0 ∧ ∀ k, k < 92 ∨ 96 ≤ k → inode' k = inode k := by
  unfold doublePart at data ⊢
  unfold extClearDoubles
  by_cases zero : inodePtr inode 13 = 0
  · rw [if_pos zero, if_pos zero]
    refine ⟨releasesTo_ok ok rfl, ?_⟩
    rintro d' inode' ⟨⟩
    exact ⟨zero, fun k _ => rfl⟩
  · rw [if_neg zero] at data ⊢
    rw [if_neg zero]
    have first := extClearDouble_releases fs.ptrs 0 ok fun x mem =>
      data x (List.mem_append_left _ mem)
    have last : ∀ d₁, extClearDouble fs (d (inodePtr inode 13)) fs.ptrs 0 d = .ok d₁ →
        ReleasesTo fs d₁ [inodePtr inode 13] id
          (orFail d₁ (extFreeBlock fs d₁ (inodePtr inode 13))) := fun d₁ eq =>
      releasesTo_freeBlock (first.of_ok eq).consistent ((first.of_ok eq).dataBlock
        (data _ (List.mem_append_right _ (List.mem_singleton.2 rfl))))
    refine ⟨first.bind fun d₁ eq => (last d₁ eq).map fun _ => rfl, fun d' inode' eq => ?_⟩
    obtain ⟨d₁, -, eq⟩ := exists_of_bind_ok eq
    obtain ⟨d₂, -, eq⟩ := exists_of_bind_ok eq
    obtain ⟨rfl, rfl⟩ := Prod.mk.inj (Except.ok.inj eq)
    exact ⟨rd32_wr32_zero, fun k apart => wr32_of_apart (by unfold inBlock; omega)⟩

end Parts

/-- **Clearing an inode releases what it refers to, or fails after some of it.** -/
theorem extInodeClearData_releases {inode : Bytes} (ok : Consistent fs d)
    (data : ∀ x ∈ fileRefs fs d inode, DataBlock fs d x) :
    ReleasesTo fs d (fileRefs fs d inode) Prod.fst (extInodeClearData fs d inode) ∧
      ∀ d' inode', extInodeClearData fs d inode = .ok (d', inode') →
        ClearedInode inode inode' := by
  unfold fileRefs at data ⊢
  obtain ⟨direct, cleared⟩ := extClearDirect_releases 12 0 ok fun x mem =>
    data x (List.mem_append_left _ mem)
  have single : ∀ d₁ inode₁, extClearDirect fs 12 0 d inode = .ok (d₁, inode₁) →
      ReleasesTo fs d₁ (singlePart fs d inode) Prod.fst (extClearSingle fs d₁ inode₁) ∧
        ∀ d₂ inode₂, extClearSingle fs d₁ inode₁ = .ok (d₂, inode₂) →
          inodePtr inode₂ 12 = 0 ∧ ∀ k, k < 88 ∨ 92 ≤ k → inode₂ k = inode₁ k := by
    intro d₁ inode₁ eq
    have released := direct.of_ok eq
    have ptr : inodePtr inode₁ 12 = inodePtr inode 12 :=
      rd32_congr fun m lt => (cleared d₁ inode₁ eq).2 _ (by unfold inBlock; omega)
    have inner : ∀ x ∈ singlePart fs d inode, DataBlock fs d x := fun x mem =>
      data x (List.mem_append_right _ (List.mem_append_left _ mem))
    have refs : singlePart fs d₁ inode₁ = singlePart fs d inode :=
      singlePart_congr ptr fun x mem => released.keeps (inner x mem)
    rw [← refs]
    exact extClearSingle_releases released.consistent fun x mem =>
      released.dataBlock (inner x (by rwa [refs] at mem))
  have double : ∀ d₁ inode₁ d₂ inode₂, extClearDirect fs 12 0 d inode = .ok (d₁, inode₁) →
      extClearSingle fs d₁ inode₁ = .ok (d₂, inode₂) →
      ReleasesTo fs d₂ (doublePart fs d inode) Prod.fst (extClearDoubles fs d₂ inode₂) ∧
        ∀ d₃ inode₃, extClearDoubles fs d₂ inode₂ = .ok (d₃, inode₃) →
          inodePtr inode₃ 13 = 0 ∧ ∀ k, k < 92 ∨ 96 ≤ k → inode₃ k = inode₂ k := by
    intro d₁ inode₁ d₂ inode₂ eq₁ eq₂
    have released := (direct.of_ok eq₁).trans ((single d₁ inode₁ eq₁).1.of_ok eq₂)
    have ptr : inodePtr inode₂ 13 = inodePtr inode 13 := by
      refine rd32_congr fun m lt => ?_
      rw [((single d₁ inode₁ eq₁).2 d₂ inode₂ eq₂).2 _ (by unfold inBlock; omega),
        (cleared d₁ inode₁ eq₁).2 _ (by unfold inBlock; omega)]
    have inner : ∀ x ∈ doublePart fs d inode, DataBlock fs d x := fun x mem =>
      data x (List.mem_append_right _ (List.mem_append_right _ mem))
    have refs : doublePart fs d₂ inode₂ = doublePart fs d inode :=
      doublePart_congr ptr fun x mem => released.keeps (inner x mem)
    rw [← refs]
    exact extClearDoubles_releases released.consistent fun x mem =>
      released.dataBlock (inner x (by rwa [refs] at mem))
  refine ⟨?_, fun d' inode' eq => ?_⟩
  · refine direct.bind fun a eq₁ => ?_
    obtain ⟨d₁, inode₁⟩ := a
    refine (single d₁ inode₁ eq₁).1.bind fun a eq₂ => ?_
    obtain ⟨d₂, inode₂⟩ := a
    exact (double d₁ inode₁ d₂ inode₂ eq₁ eq₂).1.map fun _ => rfl
  · unfold extInodeClearData at eq
    obtain ⟨⟨d₁, inode₁⟩, eq₁, eq⟩ := exists_of_bind_ok eq
    obtain ⟨⟨d₂, inode₂⟩, eq₂, eq⟩ := exists_of_bind_ok eq
    obtain ⟨⟨d₃, inode₃⟩, eq₃, eq⟩ := exists_of_bind_ok eq
    obtain ⟨rfl, rfl⟩ := Prod.mk.inj (Except.ok.inj eq)
    obtain ⟨zero₁, kept₁⟩ := cleared d₁ inode₁ eq₁
    obtain ⟨zero₂, kept₂⟩ := (single d₁ inode₁ eq₁).2 d₂ inode₂ eq₂
    obtain ⟨zero₃, kept₃⟩ := (double d₁ inode₁ d₂ inode₂ eq₁ eq₂).2 d₃ inode₃ eq₃
    refine ⟨fun j lt => ?_, ?_, rd32_wr32_zero, fun k apart => ?_⟩
    · rw [inodePtr_setSize]
      rcases Nat.lt_or_ge j 12 with before | after
      · rw [← zero₁ j (Nat.zero_le j) (by omega)]
        refine rd32_congr fun m ltM => ?_
        rw [kept₃ _ (by unfold inBlock; omega), kept₂ _ (by unfold inBlock; omega)]
      · rcases Nat.eq_or_lt_of_le after with rfl | last
        · rw [← zero₂]
          exact rd32_congr fun m ltM => kept₃ _ (by unfold inBlock; omega)
        · obtain rfl : j = 13 := by omega
          exact zero₃
    · unfold setSize
      rw [rd32_wr32_of_apart (by decide)]
      exact rd32_wr32_zero
    · rw [setSize_of_apart (by omega), kept₃ k (by omega), kept₂ k (by omega),
        kept₁ k (by unfold inBlock; omega)]

end NTux.Ext
