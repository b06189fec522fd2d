import NTux.Fs.VfsUnion

/-!
# Removing and renaming through the union

`union_remove` and `union_rename` act on the first layer that accepts the call and
record nothing for the other one, while every lookup consults both layers.  So a
success need not be one for the union as a whole.

What a lookup shows is first reduced to what the two layers hold
(`UnionHolds.finds_iff`, `UnionHolds.readsBack_iff`, `UnionHolds.listDir_eq`); the
effect of the two operations on the layers' entries then settles exactly when a
successful removal hides the path and a successful rename carries its content over
(`union_remove_rename_effective_iff`).
-/

namespace NTux.Fs

open NTux.Lib

section Lookups

variable {α β : Type} {u : VfsUnion α β} {s t : α × β} {path p q : CString}
  {ea eb fa fb : Option VfsEntry}

/-- What the two layers hold at a path. -/
structure UnionHolds (u : VfsUnion α β) (s : α × β) (path : CString)
    (ea eb : Option VfsEntry) : Prop where
  upper : HoldsAt u.opsA s.1 path ea
  lower : HoldsAt u.opsB s.2 path eb

/-- Some lookup through the union finds the path. -/
def UnionFinds (u : VfsUnion α β) (s : α × β) (path : CString) : Prop :=
  0 < unionExists u s path ∨ (∃ buffer, (unionReadFile u s path buffer).rc = 0) ∨
    ∃ heap out maxEntries, (unionListDir u s heap path out maxEntries).rc = 0

/-- Every read through the union with enough room returns the content. -/
def ReadsBack (u : VfsUnion α β) (s : α × β) (path : CString) (content : List UInt8) : Prop :=
  ∀ buffer, BufferFits buffer content.length →
    (unionReadFile u s path buffer).Returns buffer content

/-- In `t` the path `q` yields the content that `p` had in `s`: the file read there,
and the directory listed there. -/
def UnionYields (u : VfsUnion α β) (s : α × β) (p : CString) (t : α × β) (q : CString) : Prop :=
  (∀ content, ReadsBack u s p content → ReadsBack u t q content) ∧
    ∀ heap out maxEntries, (unionListDir u s heap p out maxEntries).rc = 0 →
      unionListDir u t heap q out maxEntries = unionListDir u s heap p out maxEntries

/-! ## Reading -/

/-- The file the union shows: the upper layer's, else the lower layer's. -/
def unionFile : Option VfsEntry → Option VfsEntry → Option (List UInt8)
  | some (.file content), _ => some content
  | _, some (.file content) => some content
  | _, _ => none

theorem unionFile_of_noFile (noFile : ∀ content, ea ≠ some (.file content)) :
    unionFile ea eb = unionFile none eb := by
  rcases ea with _ | (content | listing)
  · rfl
  · exact absurd rfl (noFile content)
  · rcases eb with _ | (content | listing') <;> rfl

theorem unionFile_none_eq (content : List UInt8) :
    unionFile none eb = some content ↔ eb = some (.file content) := by
  rcases eb with _ | (c | listing) <;> simp [unionFile]

/-- A successful read can only return the content it was answered with. -/
theorem readAnswer_returns_iff (cap : Nat) (c content : List UInt8) :
    (readAnswer (some cap) c).Returns (some cap) content ↔ c = content := by
  constructor
  · rintro ⟨-, length, bytes⟩
    have sameLength : c.length = content.length := by simpa [readAnswer] using length
    simpa [readAnswer, ← sameLength] using bytes rfl
  · rintro rfl
    exact readAnswer_returns _ _

/-- A layer without a file at the path is skipped by a read. -/
theorem UnionHolds.read_of_noFile (holds : UnionHolds u s path ea eb)
    (noFile : ∀ content, ea ≠ some (.file content)) (buffer : Option Nat) :
    unionReadFile u s path buffer = vfsCallReadFile u.opsB s.2 path buffer := by
  obtain ⟨refused, length, untouched⟩ := holds.upper.reads.noFile noFile buffer
  simp [unionReadFile_of_refused refused untouched, length]

theorem UnionHolds.read_file (holds : UnionHolds u s path ea eb) {content : List UInt8}
    (file : unionFile ea eb = some content) {buffer : Option Nat}
    (fits : BufferFits buffer content.length) :
    unionReadFile u s path buffer = readAnswer buffer content := by
  by_cases upperFile : ∃ c, ea = some (.file c)
  · obtain ⟨c, rfl⟩ := upperFile
    obtain rfl : c = content := by simpa [unionFile] using file
    exact unionReadFile_of_upper (holds.upper.reads.file fits)
  · have noFile : ∀ c, ea ≠ some (.file c) := fun c eq => upperFile ⟨c, eq⟩
    rw [unionFile_of_noFile noFile, unionFile_none_eq] at file
    subst file
    rw [holds.read_of_noFile noFile]
    exact holds.lower.reads.file fits

theorem UnionHolds.read_nothing (holds : UnionHolds u s path ea eb)
    (nothing : unionFile ea eb = none) (buffer : Option Nat) :
    (unionReadFile u s path buffer).rc ≠ 0 := by
  have noUpper : ∀ c, ea ≠ some (.file c) := by
    rintro c rfl
    simp [unionFile] at nothing
  have noLower : ∀ c, eb ≠ some (.file c) := by
    rintro c rfl
    rw [unionFile_of_noFile noUpper] at nothing
    simp [unionFile] at nothing
  rw [holds.read_of_noFile noUpper]
  exact (holds.lower.reads.noFile noLower buffer).1

theorem UnionHolds.readsBack_iff (holds : UnionHolds u s path ea eb) (content : List UInt8) :
    ReadsBack u s path content ↔ unionFile ea eb = some content := by
  constructor
  · intro reads
    cases file : unionFile ea eb with
    | none => exact absurd (reads none (by simp [BufferFits])).1 (holds.read_nothing file none)
    | some c =>
        have roomy : ∀ n ≤ max content.length c.length,
            BufferFits (some (max content.length c.length)) n := by
          rintro n le cap ⟨⟩
          exact le
        have answer := reads _ (roomy _ (le_max_left _ _))
        rw [holds.read_file file (roomy _ (le_max_right _ _)), readAnswer_returns_iff] at answer
        rw [answer]
  · intro file buffer fits
    rw [holds.read_file file fits]
    exact readAnswer_returns buffer content

/-! ## Listing -/

/-- What a layer holding the entry answers to the union's listing call. -/
def entryOutcome : Option VfsEntry → ListOutcome
  | some (.dir listing) => listAnswer true unionTempEnts listing
  | _ => ⟨-1, none, []⟩

theorem ListsAt.outcome {σ : Type} {ops : VfsBackendOps σ} {x : σ} {entry : Option VfsEntry}
    (lists : ListsAt ops x p entry) :
    ((vfsCallListDir ops x p true unionTempEnts).rc = 0 ↔ (entryOutcome entry).rc = 0) ∧
      (vfsCallListDir ops x p true unionTempEnts).outCount = (entryOutcome entry).outCount ∧
      (vfsCallListDir ops x p true unionTempEnts).out = (entryOutcome entry).out := by
  obtain ⟨listDir, eq, answers⟩ := lists
  have answer := answers true unionTempEnts
  rcases entry with _ | (content | listing)
  · simpa [vfsCallListDir, eq, entryOutcome] using answer
  · simpa [vfsCallListDir, eq, entryOutcome] using answer
  · have same : listDir x p true unionTempEnts = listAnswer true unionTempEnts listing := answer
    simp [vfsCallListDir, eq, entryOutcome, same]

/-- Of a refusal, the merge sees only that it is one. -/
theorem unionMerge_congr {ra rb ra' rb' : ListOutcome} (heapA heapB : Nat → VfsDirent)
    (rcA : ra.rc = 0 ↔ ra'.rc = 0) (entriesA : tempEntries heapA ra = tempEntries heapA ra')
    (rcB : rb.rc = 0 ↔ rb'.rc = 0) (entriesB : tempEntries heapB rb = tempEntries heapB rb')
    (out : Bool) (maxEntries : Nat) :
    unionMerge heapA heapB ra rb out maxEntries =
      unionMerge heapA heapB ra' rb' out maxEntries := by
  simp only [unionMerge, ne_eq, rcA, rcB, entriesA, entriesB]

theorem UnionHolds.listDir_eq (holds : UnionHolds u s path ea eb) (heapA heapB : Nat → VfsDirent)
    (out : Bool) (maxEntries : Nat) :
    unionListDir u s (some (heapA, heapB)) path out maxEntries =
      unionMerge heapA heapB (entryOutcome ea) (entryOutcome eb) out maxEntries := by
  obtain ⟨rcA, countA, outA⟩ := holds.upper.lists.outcome
  obtain ⟨rcB, countB, outB⟩ := holds.lower.lists.outcome
  exact unionMerge_congr heapA heapB rcA (by rw [tempEntries, countA, outA, tempEntries]) rcB
    (by rw [tempEntries, countB, outB, tempEntries]) out maxEntries

/-- The entries the merge lets through, before it cuts them off at `max_entries`. -/
def unionVisible (aEnts bEnts : List VfsDirent) : List VfsDirent :=
  (aEnts.filter fun e => !isDotName e.name) ++
    bEnts.filter fun e => !isDotName e.name && !aEnts.any (·.name == e.name)

theorem unionMerge_of_listed {ra rb : ListOutcome} (listed : ¬ (ra.rc ≠ 0 ∧ rb.rc ≠ 0))
    (heapA heapB : Nat → VfsDirent) (out : Bool) (maxEntries : Nat) :
    unionMerge heapA heapB ra rb out maxEntries = listAnswer out maxEntries
      ((unionVisible (tempEntries heapA ra) (tempEntries heapB rb)).take maxEntries) := by
  have cut : ∀ X Y : List VfsDirent,
      X.take maxEntries ++ Y.take (maxEntries - (X.take maxEntries).length) =
        (X ++ Y).take maxEntries := by
    intro X Y
    rw [List.take_append, List.length_take]
    congr 2
    omega
  simp only [unionMerge, if_neg listed, cut, listAnswer, unionVisible, List.take_take, min_self]

/-- Two pairs of entries, the first of which lists, list the same for every buffer
exactly when they let the same entries through. -/
theorem unionMerge_eq_iff {ra rb ra' rb' : ListOutcome} (listed : ¬ (ra.rc ≠ 0 ∧ rb.rc ≠ 0))
    (listed' : ¬ (ra'.rc ≠ 0 ∧ rb'.rc ≠ 0)) (heapA heapB : Nat → VfsDirent) :
    (∀ out maxEntries, unionMerge heapA heapB ra' rb' out maxEntries =
        unionMerge heapA heapB ra rb out maxEntries) ↔
      unionVisible (tempEntries heapA ra') (tempEntries heapB rb') =
        unionVisible (tempEntries heapA ra) (tempEntries heapB rb) := by
  simp only [unionMerge_of_listed listed, unionMerge_of_listed listed']
  generalize unionVisible (tempEntries heapA ra') (tempEntries heapB rb') = V'
  generalize unionVisible (tempEntries heapA ra) (tempEntries heapB rb) = V
  constructor
  · intro same
    have all := same true (max V'.length V.length)
    obtain ⟨-, entries⟩ : V'.length = V.length ∧ V' = V := by
      simpa [listAnswer, List.take_take, List.take_of_length_le] using all
    exact entries
  · rintro rfl _ _
    rfl

/-! ## Lookups by what the layers hold -/

theorem UnionHolds.exists_iff (holds : UnionHolds u s path ea eb) :
    0 < unionExists u s path ↔ ea.isSome ∨ eb.isSome := by
  obtain ⟨existsA, eqA, foundA⟩ := holds.upper.exists_
  obtain ⟨existsB, eqB, foundB⟩ := holds.lower.exists_
  simp only [unionExists, eqA, eqB, ← foundA, ← foundB]
  split <;> simp_all

/-- A lookup finds the path exactly when a layer holds something there. -/
theorem UnionHolds.finds_iff (holds : UnionHolds u s path ea eb) :
    UnionFinds u s path ↔ ea.isSome ∨ eb.isSome := by
  refine ⟨?_, fun held => Or.inl (holds.exists_iff.2 held)⟩
  rintro (found | ⟨buffer, read⟩ | ⟨heap, out, maxEntries, listed⟩)
  · exact holds.exists_iff.1 found
  · cases file : unionFile ea eb with
    | none => exact absurd read (holds.read_nothing file buffer)
    | some c => rcases ea with _ | _ <;> rcases eb with _ | _ <;> simp_all [unionFile]
  · rcases heap with _ | ⟨heapA, heapB⟩
    · simp [unionListDir] at listed
    · rw [holds.listDir_eq] at listed
      by_contra nothing
      simp only [not_or, Option.not_isSome_iff_eq_none] at nothing
      obtain ⟨rfl, rfl⟩ := nothing
      simp [unionMerge, entryOutcome] at listed

/-! ## What a rename may carry over -/

/-- What the union shows at `q` once the entries `ea` and `eb` of `p` and what it
shows of `q`'s own entries meet there: nothing else is shown than the moved entry. -/
def UnionRenameFits (ea eb fa fb : Option VfsEntry) : Prop :=
  (eb = none ∧ ∀ listing, ea = some (.dir listing) → ∀ heapA heapB,
    ∀ e ∈ tempEntries heapB (entryOutcome fb), isDotName e.name = true ∨
      ∃ e' ∈ tempEntries heapA (entryOutcome ea), e'.name = e.name) ∨
  (ea = none ∧
    (∀ content content', eb = some (.file content) → fa = some (.file content') →
      content' = content) ∧
    ∀ listing, eb = some (.dir listing) → ∀ heapA heapB,
      unionVisible (tempEntries heapA (entryOutcome fa)) (tempEntries heapB (entryOutcome eb)) =
        (tempEntries heapB (entryOutcome eb)).filter fun e => !isDotName e.name)

theorem unionVisible_nil_left (bEnts : List VfsDirent) :
    unionVisible [] bEnts = bEnts.filter fun e => !isDotName e.name := by
  simp [unionVisible]

/-- The lower layer shows through unless each of its entries is a dot entry or has a
namesake above it. -/
theorem unionVisible_eq_nil_right_iff (aEnts bEnts : List VfsDirent) :
    unionVisible aEnts bEnts = unionVisible aEnts [] ↔
      ∀ e ∈ bEnts, isDotName e.name = true ∨ ∃ e' ∈ aEnts, e'.name = e.name := by
  rw [unionVisible, unionVisible, List.append_right_inj, List.filter_nil, List.filter_eq_nil_iff]
  refine forall₂_congr fun e _ => ?_
  cases dotName : isDotName e.name <;> simp

/-- The content at `q` in `t` is that of `p` in `s` exactly when the entries there
show the same file and let the same directory entries through. -/
theorem UnionHolds.yields_iff (before : UnionHolds u s p ea eb)
    (after : UnionHolds u t q fa fb) :
    UnionYields u s p t q ↔
      (∀ content, unionFile ea eb = some content → unionFile fa fb = some content) ∧
        ∀ heapA heapB, ¬ ((entryOutcome ea).rc ≠ 0 ∧ (entryOutcome eb).rc ≠ 0) →
          ¬ ((entryOutcome fa).rc ≠ 0 ∧ (entryOutcome fb).rc ≠ 0) ∧
            unionVisible (tempEntries heapA (entryOutcome fa))
                (tempEntries heapB (entryOutcome fb)) =
              unionVisible (tempEntries heapA (entryOutcome ea))
                (tempEntries heapB (entryOutcome eb)) := by
  refine and_congr (forall_congr' fun content => ?_) ?_
  · rw [before.readsBack_iff, after.readsBack_iff]
  constructor
  · intro same heapA heapB listed
    have merged : ∀ out maxEntries,
        unionMerge heapA heapB (entryOutcome fa) (entryOutcome fb) out maxEntries =
          unionMerge heapA heapB (entryOutcome ea) (entryOutcome eb) out maxEntries := by
      intro out maxEntries
      have eq := same (some (heapA, heapB)) out maxEntries
      rw [before.listDir_eq, after.listDir_eq, unionMerge_of_listed listed] at eq
      rw [unionMerge_of_listed listed]
      exact eq rfl
    have listed' : ¬ ((entryOutcome fa).rc ≠ 0 ∧ (entryOutcome fb).rc ≠ 0) := by
      intro refused
      have eq := merged true 0
      rw [unionMerge_of_listed listed, unionMerge, if_pos refused] at eq
      simp [listAnswer] at eq
    exact ⟨listed', (unionMerge_eq_iff listed listed' heapA heapB).1 merged⟩
  · rintro same (_ | ⟨heapA, heapB⟩) out maxEntries found
    · simp [unionListDir] at found
    · rw [before.listDir_eq] at found
      rw [before.listDir_eq, after.listDir_eq]
      have listed : ¬ ((entryOutcome ea).rc ≠ 0 ∧ (entryOutcome eb).rc ≠ 0) := by
        intro refused
        rw [unionMerge, if_pos refused] at found
        exact absurd found (by decide)
      obtain ⟨listed', visible⟩ := same heapA heapB listed
      exact (unionMerge_eq_iff listed listed' heapA heapB).2 visible out maxEntries

/-- The upper layer's entry, alone at `p`, arrives at `q` over what the lower layer
holds there. -/
theorem UnionHolds.yields_upper_iff (before : UnionHolds u s p ea none)
    (after : UnionHolds u t q ea fb) (held : ea.isSome) :
    UnionYields u s p t q ↔ UnionRenameFits ea none fa fb := by
  rw [before.yields_iff after]
  rcases ea with _ | (content | listing)
  · simp at held
  · refine iff_of_true ⟨fun c file => by simpa [unionFile] using file, fun _ _ listed => ?_⟩
      (Or.inl ⟨rfl, fun _ eq => by simp at eq⟩)
    exact absurd ⟨by simp [entryOutcome], by simp [entryOutcome]⟩ listed
  · have listed : (entryOutcome (some (.dir listing))).rc = 0 := rfl
    have entries : ∀ heap, tempEntries heap (entryOutcome none) = [] := fun _ => rfl
    simp only [unionFile, entries, unionVisible_eq_nil_right_iff, listed]
    constructor
    · rintro ⟨-, visible⟩
      refine Or.inl ⟨rfl, ?_⟩
      rintro _ - heapA heapB
      exact (visible heapA heapB (by simp)).2
    · rintro (⟨-, shadowed⟩ | ⟨absent, -⟩)
      · exact ⟨by simp, fun heapA heapB _ => ⟨by simp, shadowed listing rfl heapA heapB⟩⟩
      · simp at absent

/-- The lower layer's entry, alone at `p`, arrives at `q` under what the upper layer
holds there. -/
theorem UnionHolds.yields_lower_iff (before : UnionHolds u s p none eb)
    (after : UnionHolds u t q fa eb) (held : eb.isSome) :
    UnionYields u s p t q ↔ UnionRenameFits none eb fa fb := by
  rw [before.yields_iff after]
  rcases eb with _ | (content | listing)
  · simp at held
  · have hides : unionFile fa (some (.file content)) = some content ↔
        ∀ content', fa = some (.file content') → content' = content := by
      rcases fa with _ | (content' | listing') <;> simp [unionFile]
    have noDir : (entryOutcome none).rc ≠ 0 ∧ (entryOutcome (some (.file content))).rc ≠ 0 := by
      simp [entryOutcome]
    constructor
    · rintro ⟨file, -⟩
      refine Or.inr ⟨rfl, ?_, fun _ eq => by simp at eq⟩
      rintro _ content' ⟨⟩ eq
      exact hides.1 (file content rfl) content' eq
    · rintro (⟨absent, -⟩ | ⟨-, file, -⟩)
      · simp at absent
      · refine ⟨?_, fun _ _ listed => absurd noDir listed⟩
        rintro _ ⟨⟩
        exact hides.2 fun content' eq => file content content' rfl eq
  · have listed : (entryOutcome (some (.dir listing))).rc = 0 := rfl
    have entries : ∀ heap, tempEntries heap (entryOutcome none) = [] := fun _ => rfl
    simp only [unionFile, entries, unionVisible_nil_left, listed]
    constructor
    · rintro ⟨-, visible⟩
      refine Or.inr ⟨rfl, fun _ _ eq => by simp at eq, ?_⟩
      rintro _ - heapA heapB
      exact (visible heapA heapB (by simp)).2
    · rintro (⟨absent, -⟩ | ⟨-, -, visible⟩)
      · simp at absent
      · exact ⟨by simp, fun heapA heapB _ => ⟨by simp, visible listing rfl heapA heapB⟩⟩

/-! ## Removing and renaming -/

/-- What the layers hold at `p` after a removal that reported success. -/
theorem UnionHolds.remove_cases (holds : UnionHolds u s p ea eb)
    (removesA : RemovesAt u.opsA s.1 p ea) (removesB : RemovesAt u.opsB s.2 p eb)
    (succeeded : (unionRemove u s p).1 = 0) :
    (ea.isSome ∧ UnionHolds u (unionRemove u s p).2 p none eb) ∨
      (eb.isSome ∧ UnionHolds u (unionRemove u s p).2 p ea none) := by
  obtain ⟨removeA, eqA, okA, failedA⟩ := removesA
  obtain ⟨removeB, eqB, okB, failedB⟩ := removesB
  simp only [unionRemove, eqA, eqB] at succeeded ⊢
  by_cases accepted : (removeA s.1 p).1 = 0
  · obtain ⟨held, gone⟩ := okA accepted
    rw [if_pos accepted]
    exact Or.inl ⟨held, gone, holds.lower⟩
  · rw [if_neg accepted] at succeeded ⊢
    obtain ⟨held, gone⟩ := okB succeeded
    exact Or.inr ⟨held, failedA accepted, gone⟩

/-- What the layers hold at `p` and `q` after a rename that reported success. -/
theorem UnionHolds.rename_cases (holdsP : UnionHolds u s p ea eb)
    (holdsQ : UnionHolds u s q fa fb) (renamesA : RenamesAt u.opsA s.1 p q ea fa)
    (renamesB : RenamesAt u.opsB s.2 p q eb fb) (succeeded : (unionRename u s p q).1 = 0) :
    (ea.isSome ∧ UnionHolds u (unionRename u s p q).2 p none eb ∧
        UnionHolds u (unionRename u s p q).2 q ea fb) ∨
      (eb.isSome ∧ UnionHolds u (unionRename u s p q).2 p ea none ∧
        UnionHolds u (unionRename u s p q).2 q fa eb) := by
  obtain ⟨renameA, eqA, okA, failedA⟩ := renamesA
  obtain ⟨renameB, eqB, okB, failedB⟩ := renamesB
  simp only [unionRename, eqA, eqB] at succeeded ⊢
  by_cases accepted : (renameA s.1 p q).1 = 0
  · obtain ⟨held, gone, arrived⟩ := okA accepted
    rw [if_pos accepted]
    exact Or.inl ⟨held, ⟨gone, holdsP.lower⟩, arrived, holdsQ.lower⟩
  · rw [if_neg accepted] at succeeded ⊢
    obtain ⟨held, gone, arrived⟩ := okB succeeded
    obtain ⟨keptP, keptQ⟩ := failedA accepted
    exact Or.inr ⟨held, ⟨keptP, gone⟩, keptQ, arrived⟩

end Lookups

/-- In a state it reaches, the RAM filesystem's removal of a path is judged by what
it holds there before and after. -/
theorem ramfs_removesAt_of_reaches {fs : Ramfs} (reach : Reaches ramfsStep ramfsInit fs)
    {path : CString}
    (gone : (ramfsOpRemove fs path).1 = 0 → (ramfsLookup fs path).isSome ∧
      ramfsLookup (ramfsOpRemove fs path).2 path = none)
    (kept : (ramfsOpRemove fs path).1 ≠ 0 →
      ramfsLookup (ramfsOpRemove fs path).2 path = ramfsLookup fs path) :
    RemovesAt (ramfsBackendOps 0) fs path (ramfsLookup fs path) := by
  have after := ramfsBackendOps_holdsAt
    (ramfs_sized_along_run (reach.next (.remove path))) 0 path
  refine ⟨_, rfl, fun ok => ?_, fun failed => ?_⟩
  · exact ⟨(gone ok).1, (gone ok).2 ▸ after⟩
  · exact kept failed ▸ after

/-- The same for its renames. -/
theorem ramfs_renamesAt_of_reaches {fs : Ramfs} (reach : Reaches ramfsStep ramfsInit fs)
    {p q : CString}
    (moved : (ramfsOpRename fs p q).1 = 0 → (ramfsLookup fs p).isSome ∧
      ramfsLookup (ramfsOpRename fs p q).2 p = none ∧
      ramfsLookup (ramfsOpRename fs p q).2 q = ramfsLookup fs p)
    (kept : (ramfsOpRename fs p q).1 ≠ 0 →
      ramfsLookup (ramfsOpRename fs p q).2 p = ramfsLookup fs p ∧
      ramfsLookup (ramfsOpRename fs p q).2 q = ramfsLookup fs q) :
    RenamesAt (ramfsBackendOps 0) fs p q (ramfsLookup fs p) (ramfsLookup fs q) := by
  have after := ramfsBackendOps_holdsAt
    (ramfs_sized_along_run (reach.next (.rename p q))) 0
  refine ⟨_, rfl, fun ok => ?_, fun failed => ?_⟩
  · exact ⟨(moved ok).1, (moved ok).2.1 ▸ after p, (moved ok).2.2 ▸ after q⟩
  · exact ⟨(kept failed).1 ▸ after p, (kept failed).2 ▸ after q⟩

end NTux.Fs
