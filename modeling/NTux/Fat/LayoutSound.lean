import NTux.Fat.Layout

/-!
# What the search for a layout accepts

A layout is sound when a copy of the table has an entry for each cluster and two more, when
all of it lies in the sectors there are, and when a mount takes the number of clusters for the
type of the layout.  The search ends after eight steps whether it has come to rest or not, so
that it accepts layouts whose table is too small by a sector (`layout_search_iff`).
-/

namespace NTux.Fat

open NTux.Lib.Alternating

/-- The entries of a table of `spf` sectors. -/
def entriesIn (t : FatType) (spf : Nat) : Nat :=
  match t with
  | .fat12 => spf * ataSectorSize * 2 / 3
  | .fat16 => spf * ataSectorSize / 2
  | .fat32 => spf * ataSectorSize / 4

/-- The type that `fat_fs_mount` derives from a number of clusters. -/
def mountedType (clusters : Nat) : FatType :=
  if clusters < 4085 then .fat12 else if clusters < 65525 then .fat16 else .fat32

/-- A layout that a volume can have. -/
structure SoundLayout (total : Nat) (l : FatLayout) : Prop where
  entries : l.clusters + 2 ≤ entriesIn l.type l.spf
  inside : l.reserved + 2 * l.spf + rootSectors l.rootEntries + l.clusters * l.spc ≤ total
  type : mountedType l.clusters = l.type

/-- Some number of sectors for a copy is what the clusters beside two such copies need. -/
def ComesToRest (total : Nat) (t : FatType) (spc reserved rootEntries : Nat) : Prop :=
  ∃ s, needed total t spc reserved rootEntries s = s

variable {total spc reserved rootEntries spf clusters : Nat} {t : FatType} {l : FatLayout}

/-! ## The parts -/

/-- The table has enough entries just when it has the sectors that are needed. -/
theorem entries_iff :
    clusters + 2 ≤ entriesIn t spf ↔ fsFatSpfFromClusters clusters t ≤ spf := by
  unfold entriesIn fsFatSpfFromClusters ataSectorSize
  cases t with
  | fat12 =>
      dsimp only
      split <;> omega
  | fat16 =>
      dsimp only
      split <;> omega
  | fat32 =>
      dsimp only
      split <;> omega

theorem typeAllows_iff : typeAllows t clusters = true ↔ mountedType clusters = t := by
  unfold typeAllows mountedType
  cases t with
  | fat12 =>
      simp only [decide_eq_true_eq]
      split
      next few => exact iff_of_true few rfl
      next many =>
        refine iff_of_false many ?_
        split <;> simp
  | fat16 =>
      simp only [Bool.and_eq_true, decide_eq_true_eq]
      split
      next few => exact iff_of_false (by omega) (by simp)
      next =>
        split
        · exact iff_of_true (by omega) rfl
        · exact iff_of_false (by omega) (by simp)
  | fat32 =>
      simp only [decide_eq_true_eq]
      split
      next few => exact iff_of_false (by omega) (by simp)
      next =>
        split
        · exact iff_of_false (by omega) (by simp)
        · exact iff_of_true (by omega) rfl

/-- The clusters fit behind the tables and the root directory. -/
theorem clustersBeside_fit (inside : reserved + 2 * spf + rootSectors rootEntries < total) :
    reserved + 2 * spf + rootSectors rootEntries +
      clustersBeside total spc reserved rootEntries spf * spc ≤ total := by
  have fit := Nat.div_mul_le_self (total - reserved - 2 * spf - rootSectors rootEntries) spc
  unfold clustersBeside
  omega

/-- Nothing that comes to rest needs more than `2 ^ 26` sectors. -/
theorem rest_bound {s : Nat} (lt : total < 4294967296)
    (fixed : needed total t spc reserved rootEntries s = s) : 1 ≤ s ∧ s ≤ 67108864 := by
  have le : clustersBeside total spc reserved rootEntries s ≤ total := LayoutOk.clustersBeside_le
  have grow := fsFatSpfFromClusters_add (t := t) 0 _ _
    (show clustersBeside total spc reserved rootEntries s ≤ 0 + 2 * 2147483648 by omega)
  have base : fsFatSpfFromClusters 0 t = 1 := by cases t <;> decide
  have pos := fsFatSpfFromClusters_pos (t := t) (clustersBeside total spc reserved rootEntries s)
  unfold needed at fixed
  omega

/-! ## The search -/

/-- Eight steps lead to the number that is its own need. -/
theorem eq_of_rest {s : Nat} (lt : total < 4294967296) (spcPos : 0 < spc)
    (search : spf = (needed total t spc reserved rootEntries)^[8] 1)
    (fixed : needed total t spc reserved rootEntries s = s) : spf = s := by
  obtain ⟨one, bound⟩ := rest_bound lt fixed
  rw [search]
  exact iterate_eight_eq (needed_slow spcPos) needed_anti fixed one (by omega)

/-- The table that the search ends with has enough entries just when it has come to rest. -/
theorem entries_iff_rest (lt : total < 4294967296) (spcPos : 0 < spc)
    (same : clusters = clustersBeside total spc reserved rootEntries spf)
    (search : spf = (needed total t spc reserved rootEntries)^[8] 1) :
    clusters + 2 ≤ entriesIn t spf ↔ ComesToRest total t spc reserved rootEntries := by
  have own : needed total t spc reserved rootEntries spf = fsFatSpfFromClusters clusters t := by
    rw [needed, ← same]
  -- after an even number of steps the search is below what is needed
  have le : spf ≤ fsFatSpfFromClusters clusters t := by
    have start : 1 ≤ needed total t spc reserved rootEntries 1 := fsFatSpfFromClusters_pos _
    have even := le_next_even needed_anti start 4
    rwa [← search, own] at even
  rw [entries_iff]
  constructor
  · intro enough
    exact ⟨spf, own.trans (Nat.le_antisymm enough le)⟩
  · rintro ⟨s, fixed⟩
    rw [← own, eq_of_rest lt spcPos search fixed, fixed]

/-- What `fs_fat_try_layout` accepts is sound just when its search comes to rest, and beside
the table it comes to there are as many clusters as a mount takes for the type. -/
theorem tried_sound_iff (lt : total < 4294967296)
    (tried : fsFatTryLayout total t spc reserved rootEntries = some (spf, clusters)) :
    SoundLayout total ⟨t, spc, reserved, rootEntries, spf, clusters⟩ ↔
      ∃ s, needed total t spc reserved rootEntries s = s ∧
        mountedType (clustersBeside total spc reserved rootEntries s) = t := by
  obtain ⟨inside, same, -, search⟩ := fsFatTryLayout_eq_some tried
  have spcPos : 0 < spc := by
    rcases Nat.eq_zero_or_pos spc with rfl | pos
    · cases tried
    · exact pos
  constructor
  · intro sound
    obtain ⟨s, fixed⟩ := (entries_iff_rest lt spcPos same search).1 sound.entries
    refine ⟨s, fixed, ?_⟩
    rw [← eq_of_rest lt spcPos search fixed, ← same]
    exact sound.type
  · rintro ⟨s, fixed, type⟩
    rw [← eq_of_rest lt spcPos search fixed, ← same] at type
    exact ⟨(entries_iff_rest lt spcPos same search).2 ⟨s, fixed⟩,
      same ▸ clustersBeside_fit inside, type⟩

/-- The same of a picked layout, whose type has been looked at. -/
theorem picked_sound_iff (lt : total < 4294967296) (ok : LayoutOk total l) :
    SoundLayout total l ↔
      ComesToRest total l.type l.spc (reservedOf l.type) (rootEntriesOf l.type) := by
  rw [← ok.reserved_eq, ← ok.rootEntries_eq,
    ← entries_iff_rest lt (spc_bounds ok.spc_mem).1 ok.clusters_eq ok.search]
  constructor
  · exact SoundLayout.entries
  · intro entries
    refine ⟨entries, ?_, typeAllows_iff.1 ok.allows⟩
    rw [ok.clusters_eq]
    exact clustersBeside_fit ok.inside

/-! ## What is picked -/

/-- The largest cluster size with which the type has a layout. -/
def Largest (total : Nat) (t : FatType) (spc : Nat) : Prop :=
  (spc ∈ spcChoices ∧ (fatCandidate total t spc).isSome) ∧
    ∀ other ∈ spcChoices, (fatCandidate total t other).isSome → other ≤ spc

/-- The type and the cluster size that a total is given: FAT32 is preferred where no type is
wanted, and of the other two the one with the larger clusters. -/
def Preferred (total : Nat) (wanted : Option FatType) (t : FatType) (spc : Nat) : Prop :=
  Largest total t spc ∧
    match wanted with
    | some w => t = w
    | none =>
        t = .fat32 ∨ (∀ other ∈ spcChoices, (fatCandidate total .fat32 other).isNone) ∧
          ((t = .fat16 ∧ ∀ other, Largest total .fat12 other → other ≤ spc) ∨
            t = .fat12 ∧ ∀ other, Largest total .fat16 other → other < spc)

variable {best : Option FatLayout}

/-- What a pass ends with: what there was before, or something with larger clusters. -/
theorem foldl_betterLayout_cases {ls : List FatLayout}
    (eq : ls.foldl betterLayout best = some l) :
    (best = some l ∧ ∀ x ∈ ls, x.spc ≤ l.spc) ∨
      (l ∈ ls ∧ (∀ x ∈ ls, x.spc ≤ l.spc) ∧ ∀ b, best = some b → b.spc < l.spc) := by
  have largest := (foldl_betterLayout_largest eq).2
  induction ls generalizing best with
  | nil => exact .inl ⟨eq, largest⟩
  | cons x ls ih =>
      obtain ⟨here, later⟩ := List.forall_mem_cons.1 largest
      rcases ih eq later with ⟨same, -⟩ | ⟨mem, -, lt⟩
      · cases best with
        | none =>
            obtain rfl := Option.some.inj same
            exact .inr ⟨List.mem_cons_self, largest, by simp⟩
        | some b =>
            unfold betterLayout at same
            dsimp only at same
            split at same
            next lt =>
              obtain rfl := Option.some.inj same
              exact .inr ⟨List.mem_cons_self, largest, fun b' eq => by cases eq; exact lt⟩
            next => exact .inl ⟨same, largest⟩
      · refine .inr ⟨List.mem_cons_of_mem _ mem, largest, fun b eq => ?_⟩
        subst eq
        unfold betterLayout at lt
        dsimp only at lt
        split at lt
        next larger => exact Nat.lt_trans larger (lt x rfl)
        next => exact lt b rfl

theorem foldl_betterLayout_none {ls : List FatLayout} (eq : ls.foldl betterLayout best = none) :
    best = none ∧ ls = [] := by
  induction ls generalizing best with
  | nil => exact ⟨eq, rfl⟩
  | cons x ls ih =>
      have none := (ih eq).1
      unfold betterLayout at none
      split at none
      · cases none
      · split at none <;> cases none

/-- The same of the loop over the cluster sizes. -/
theorem pickOfType_cases (eq : pickOfType total t best = some l) :
    (best = some l ∧ ∀ other, Largest total t other → other ≤ l.spc) ∨
      (l.type = t ∧ Largest total t l.spc ∧ ∀ b, best = some b → b.spc < l.spc) := by
  have bound : (∀ x ∈ spcChoices.filterMap (fatCandidate total t), x.spc ≤ l.spc) →
      ∀ other ∈ spcChoices, (fatCandidate total t other).isSome → other ≤ l.spc := by
    intro le other choice some_
    obtain ⟨x, candidate⟩ := Option.isSome_iff_exists.1 some_
    have same := (fatCandidate_ok choice candidate).2.2
    exact same ▸ le x (List.mem_filterMap.2 ⟨other, choice, candidate⟩)
  rcases foldl_betterLayout_cases eq with ⟨same, le⟩ | ⟨mem, le, lt⟩
  · exact .inl ⟨same, fun other largest => bound le other largest.1.1 largest.1.2⟩
  · obtain ⟨spc, choice, candidate⟩ := List.mem_filterMap.1 mem
    obtain ⟨-, type, rfl⟩ := fatCandidate_ok choice candidate
    exact .inr ⟨type, ⟨⟨choice, by rw [candidate]; rfl⟩, bound le⟩, lt⟩

theorem pickOfType_none (eq : pickOfType total t best = none) :
    best = none ∧ ∀ other ∈ spcChoices, (fatCandidate total t other).isNone := by
  obtain ⟨none, empty⟩ := foldl_betterLayout_none eq
  refine ⟨none, fun other choice => ?_⟩
  rw [Option.isNone_iff_eq_none]
  exact List.filterMap_eq_nil_iff.1 empty other choice

theorem not_largest_of_none (none : ∀ other ∈ spcChoices, (fatCandidate total t other).isNone)
    {other : Nat} : ¬ Largest total t other := by
  rintro ⟨⟨choice, some_⟩, -⟩
  have := none other choice
  rw [Option.isNone_iff_eq_none] at this
  rw [this] at some_
  cases some_

/-- Behind the last type nothing is left to be tried. -/
theorem pickOfTypes_last (wanted : Option FatType) (t : FatType) :
    pickOfTypes total wanted [t] best = pickOfType total t best := by
  unfold pickOfTypes
  dsimp only
  split
  · rfl
  · rfl

/-- Where nothing was found before, the best of a type is the largest of it. -/
theorem pickOfType_first (eq : pickOfType total t none = some l) :
    l.type = t ∧ Largest total t l.spc := by
  rcases pickOfType_cases eq with ⟨same, -⟩ | ⟨type, largest, -⟩
  · cases same
  · exact ⟨type, largest⟩

/-- A FAT16 layout does not end the search. -/
theorem fat16_goes_on : ¬ ((pickOfType total .fat16 none).isSome &&
    ((none : Option FatType).isSome ||
      (pickOfType total .fat16 none).map (·.type) = some .fat32) : Bool) = true := by
  intro stops
  cases second : pickOfType total .fat16 none with
  | none =>
      rw [second] at stops
      cases stops
  | some l₁₆ =>
      rw [second] at stops
      simp [(pickOfType_first second).1] at stops

/-- Without FAT32, the larger clusters are taken, and FAT16 if they are the same. -/
theorem preferred_of_no32 (no32 : ∀ other ∈ spcChoices, (fatCandidate total .fat32 other).isNone)
    (eq : pickOfType total .fat12 (pickOfType total .fat16 none) = some l) :
    Preferred total none l.type l.spc := by
  rcases pickOfType_cases eq with ⟨same, le⟩ | ⟨type, largest, lt⟩
  · obtain ⟨type, largest⟩ := pickOfType_first same
    exact ⟨type ▸ largest, .inr ⟨no32, .inl ⟨type, le⟩⟩⟩
  · refine ⟨type ▸ largest, .inr ⟨no32, .inr ⟨type, fun other big => ?_⟩⟩⟩
    cases second : pickOfType total .fat16 none with
    | none => exact absurd big (not_largest_of_none (pickOfType_none second).2)
    | some l₁₆ =>
        have le := (pickOfType_first second).2.2 other big.1.1 big.1.2
        exact le.trans_lt (lt l₁₆ second)

theorem fsFatPickLayout_preferred {wanted : Option FatType}
    (eq : fsFatPickLayout total wanted = some l) : Preferred total wanted l.type l.spc := by
  cases wanted with
  | some w =>
      obtain ⟨type, largest⟩ := pickOfType_first ((pickOfTypes_last (some w) w).symm.trans eq)
      exact ⟨type ▸ largest, type⟩
  | none =>
      unfold fsFatPickLayout at eq
      dsimp only at eq
      unfold pickOfTypes at eq
      dsimp only at eq
      cases first : pickOfType total .fat32 none with
      | some l₃₂ =>
          obtain ⟨type, largest⟩ := pickOfType_first first
          rw [first] at eq
          simp only [Option.isSome_some, Option.isSome_none, Option.map_some, type,
            decide_true] at eq
          obtain rfl := Option.some.inj eq
          exact ⟨type ▸ largest, .inl type⟩
      | none =>
          rw [first] at eq
          simp only [Option.isSome_none, Bool.false_and, Bool.false_eq_true, if_false] at eq
          unfold pickOfTypes at eq
          dsimp only at eq
          split at eq
          next stops => exact absurd stops fat16_goes_on
          next =>
            rw [pickOfTypes_last] at eq
            exact preferred_of_no32 (pickOfType_none first).2 eq

/-- There is one such type and size. -/
theorem Preferred.unique {wanted : Option FatType} {t' : FatType} {spc' : Nat}
    (one : Preferred total wanted t spc) (two : Preferred total wanted t' spc') :
    t = t' ∧ spc = spc' := by
  have size : t = t' → spc = spc' := by
    rintro rfl
    exact Nat.le_antisymm (two.1.2 _ one.1.1.1 one.1.1.2) (one.1.2 _ two.1.1.1 two.1.1.2)
  have none32 : ∀ {spc}, (∀ other ∈ spcChoices, (fatCandidate total .fat32 other).isNone) →
      ¬ Largest total .fat32 spc := fun none => not_largest_of_none none
  have type : t = t' := by
    obtain ⟨large, prefers⟩ := one
    obtain ⟨large', prefers'⟩ := two
    cases wanted with
    | some w => exact prefers.trans prefers'.symm
    | none =>
        rcases prefers with rfl | ⟨no32, ⟨rfl, le⟩ | ⟨rfl, lt⟩⟩
        · rcases prefers' with rfl | ⟨no32, -⟩
          · rfl
          · exact absurd large (none32 no32)
        · rcases prefers' with rfl | ⟨-, ⟨rfl, -⟩ | ⟨rfl, lt'⟩⟩
          · exact absurd large' (none32 no32)
          · rfl
          · have := le _ large'
            have := lt' _ large
            omega
        · rcases prefers' with rfl | ⟨-, ⟨rfl, le'⟩ | ⟨rfl, -⟩⟩
          · exact absurd large' (none32 no32)
          · have := lt _ large'
            have := le' _ large
            omega
          · rfl
  exact ⟨type, size type⟩

/-! ## The law -/

/-- **A layout is sound just when the search for it comes to rest.**  `fs_fat_try_layout` leaves
it to its caller to look at the type. -/
theorem layout_search_iff (total : UInt32) :
    (∀ (t : FatType) (spc : UInt8) (reserved rootEntries : UInt16) (spf clusters : Nat),
      fsFatTryLayout total.toNat t spc.toNat reserved.toNat rootEntries.toNat =
          some (spf, clusters) →
        (SoundLayout total.toNat ⟨t, spc.toNat, reserved.toNat, rootEntries.toNat, spf, clusters⟩ ↔
          ∃ s, needed total.toNat t spc.toNat reserved.toNat rootEntries.toNat s = s ∧
            mountedType (clustersBeside total.toNat spc.toNat reserved.toNat rootEntries.toNat s)
              = t)) ∧
    ∀ (wanted : Option FatType) (l : FatLayout), fsFatPickLayout total.toNat wanted = some l →
      (SoundLayout total.toNat l ↔ ∃ t spc, Preferred total.toNat wanted t spc ∧
        ComesToRest total.toNat t spc (reservedOf t) (rootEntriesOf t)) := by
  have lt : total.toNat < 4294967296 := total.toNat_lt
  refine ⟨fun t spc reserved rootEntries spf clusters tried => tried_sound_iff lt tried,
    fun wanted l pick => ?_⟩
  have preferred := fsFatPickLayout_preferred pick
  rw [picked_sound_iff lt (fsFatPickLayout_picked pick).1]
  constructor
  · intro rests
    exact ⟨l.type, l.spc, preferred, rests⟩
  · rintro ⟨t, spc, other, rests⟩
    obtain ⟨rfl, rfl⟩ := preferred.unique other
    exact rests

/-- 8200 sectors with FAT16 and clusters of a sector: 32 sectors for a copy are what the 8103
clusters need. -/
theorem layout_search_8200 :
    SoundLayout 8200 ⟨.fat16, 1, 1, 512, 32, 8103⟩ ∧
      ∃ t spc, Preferred 8200 (some .fat16) t spc ∧
        ComesToRest 8200 t spc (reservedOf t) (rootEntriesOf t) := by
  have law := layout_search_iff 8200
  have sound : SoundLayout 8200 ⟨.fat16, 1, 1, 512, 32, 8103⟩ :=
    (law.1 .fat16 1 1 512 32 8103 (by decide)).2 ⟨32, by decide, by decide⟩
  exact ⟨sound, (law.2 (some .fat16) ⟨.fat16, 1, 1, 512, 32, 8103⟩ (by decide +kernel)).1 sound⟩

/-- Of 8030 sectors a copy of the table gets 31, which is an entry less than the 7935 clusters
and the first two need. -/
theorem layout_search_8030 :
    ¬ ∀ (total : UInt32) (wanted : Option FatType) (l : FatLayout),
      fsFatPickLayout total.toNat wanted = some l → SoundLayout total.toNat l := by
  intro all
  have sound := all 8030 (some .fat16) ⟨.fat16, 1, 1, 512, 31, 7935⟩ (by decide +kernel)
  exact absurd sound.entries (by decide)

end NTux.Fat
