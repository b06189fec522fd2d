import NTux.Fat.Table
import NTux.Lib.Alternating

/-!
# The layout of a new FAT volume

`fs_fat_try_layout` looks for the number of sectors a copy of the table needs: from one
sector on it takes what the clusters beside two copies of that size need, eight times at
most.  `fs_fat_pick_layout` tries the cluster sizes and keeps the largest that gives a
number of clusters the type allows.

More sectors for the table leave fewer clusters, so the steps go up and down in turn
(`needed_anti`), and they come together fast (`needed_slow`).  They end in a number
that is its own need if there is one, and below their own need otherwise
(`LayoutOk.fixed_iff`, `LayoutOk.spf_le`).
-/

namespace NTux.Fat

open NTux.Lib.Alternating

/-- `fs_fat_spf_from_clusters`. -/
def fsFatSpfFromClusters (clusters : Nat) (type : FatType) : Nat :=
  let entries := clusters + 2
  let bytes := match type with
    | .fat12 => (entries * 3 + 1) / 2
    | .fat16 => entries * 2
    | .fat32 => entries * 4
  let spf := (bytes + (ataSectorSize - 1)) / ataSectorSize
  if spf = 0 then 1 else spf

/-- `root_dir_sectors` of a format. -/
def rootSectors (rootEntries : Nat) : Nat :=
  (rootEntries * 32 + (ataSectorSize - 1)) / ataSectorSize

/-- The clusters that a table of `spf` sectors a copy leaves. -/
def clustersBeside (total spc reserved rootEntries spf : Nat) : Nat :=
  (total - reserved - 2 * spf - rootSectors rootEntries) / spc

/-- The loop of `fs_fat_try_layout`.  The sums are of at most `2 ^ 27` and do not wrap. -/
def spfSearch (total : Nat) (type : FatType) (spc reserved rootEntries : Nat) :
    Nat → Nat → Option Nat
  | 0, spf => some spf
  | n + 1, spf =>
      if total ≤ reserved + 2 * spf + rootSectors rootEntries then none
      else
        let clusters := clustersBeside total spc reserved rootEntries spf
        if clusters = 0 then none
        else
          let needed := fsFatSpfFromClusters clusters type
          if needed = spf then some spf else spfSearch total type spc reserved rootEntries n needed

/-- `fs_fat_try_layout`: the sectors of a copy of the table, and the clusters. -/
def fsFatTryLayout (total : Nat) (type : FatType) (spc reserved rootEntries : Nat) :
    Option (Nat × Nat) :=
  if spc = 0 then none
  else
    match spfSearch total type spc reserved rootEntries 8 1 with
    | none => none
    | some spf =>
        if total ≤ reserved + 2 * spf + rootSectors rootEntries then none
        else
          let clusters := clustersBeside total spc reserved rootEntries spf
          if clusters = 0 then none else some (spf, clusters)

/-- What `fs_fat_pick_layout` picks. -/
structure FatLayout where
  type : FatType
  spc : Nat
  reserved : Nat
  rootEntries : Nat
  spf : Nat
  clusters : Nat
  deriving DecidableEq

/-- `spc_choices`. -/
def spcChoices : List Nat := [1, 2, 4, 8, 16, 32, 64, 128]

/-- `reserved` and `root_entries` of a type. -/
def reservedOf (t : FatType) : Nat := if t = .fat32 then 32 else 1

@[inherit_doc reservedOf] def rootEntriesOf (t : FatType) : Nat := if t = .fat32 then 0 else 512

/-- A number of clusters that the type allows. -/
def typeAllows (t : FatType) (clusters : Nat) : Bool :=
  match t with
  | .fat12 => clusters < 4085
  | .fat16 => 4085 ≤ clusters && clusters < 65525
  | .fat32 => 65525 ≤ clusters

/-- The layout with a cluster size, when it is one for the type. -/
def fatCandidate (total : Nat) (t : FatType) (spc : Nat) : Option FatLayout :=
  (fsFatTryLayout total t spc (reservedOf t) (rootEntriesOf t)).bind fun r =>
    if typeAllows t r.2 then some ⟨t, spc, reservedOf t, rootEntriesOf t, r.1, r.2⟩ else none

/-- `have_best` and `best_…`. -/
def betterLayout (best : Option FatLayout) (l : FatLayout) : Option FatLayout :=
  match best with
  | none => some l
  | some b => if b.spc < l.spc then some l else some b

/-- The loop over the cluster sizes. -/
def pickOfType (total : Nat) (t : FatType) (best : Option FatLayout) : Option FatLayout :=
  (spcChoices.filterMap (fatCandidate total t)).foldl betterLayout best

/-- The loop over the types. -/
def pickOfTypes (total : Nat) (wanted : Option FatType) :
    List FatType → Option FatLayout → Option FatLayout
  | [], best => best
  | t :: types, best =>
      let best := pickOfType total t best
      if best.isSome && (wanted.isSome || best.map FatLayout.type = some .fat32) then best
      else pickOfTypes total wanted types best

/-- `fs_fat_pick_layout`; a type of 0 is none. -/
def fsFatPickLayout (total : Nat) (wanted : Option FatType) : Option FatLayout :=
  match wanted with
  | none => pickOfTypes total wanted [.fat32, .fat16, .fat12] none
  | some t => pickOfTypes total wanted [t] none

/-! ## The steps of the search -/

variable {total spc reserved rootEntries : Nat} {t : FatType}

/-- One step: what the clusters beside `spf` sectors need. -/
def needed (total : Nat) (t : FatType) (spc reserved rootEntries spf : Nat) : Nat :=
  fsFatSpfFromClusters (clustersBeside total spc reserved rootEntries spf) t

theorem fsFatSpfFromClusters_pos (n : Nat) : 0 < fsFatSpfFromClusters n t := by
  unfold fsFatSpfFromClusters
  dsimp only
  generalize (_ + (ataSectorSize - 1)) / ataSectorSize = spf
  split <;> omega

/-- `2 (m)` more clusters need a sector more for each 64 of `m`. -/
theorem fsFatSpfFromClusters_add (n m d : Nat) (le : m ≤ n + 2 * d) :
    fsFatSpfFromClusters m t ≤ fsFatSpfFromClusters n t + (d + 63) / 64 := by
  unfold fsFatSpfFromClusters ataSectorSize
  dsimp only
  cases t <;> dsimp only <;> split <;> split <;> omega

theorem clustersBeside_add (pos : 0 < spc) {a b : Nat} (le : a ≤ b) :
    clustersBeside total spc reserved rootEntries a ≤
      clustersBeside total spc reserved rootEntries b + 2 * (b - a) := by
  unfold clustersBeside
  calc (total - reserved - 2 * a - rootSectors rootEntries) / spc
      ≤ (total - reserved - 2 * b - rootSectors rootEntries + 2 * (b - a) * spc) / spc := by
        apply Nat.div_le_div_right
        have : 2 * (b - a) * 1 ≤ 2 * (b - a) * spc := Nat.mul_le_mul_left _ pos
        omega
    _ = _ := Nat.add_mul_div_right _ _ pos

theorem needed_anti : Antitone (needed total t spc reserved rootEntries) := by
  intro a b le
  have fewer : clustersBeside total spc reserved rootEntries b ≤
      clustersBeside total spc reserved rootEntries a := by
    unfold clustersBeside
    exact Nat.div_le_div_right (by omega)
  have less := fsFatSpfFromClusters_add (t := t) (clustersBeside total spc reserved rootEntries a)
    (clustersBeside total spc reserved rootEntries b) 0 (by omega)
  unfold needed
  omega

theorem needed_slow (pos : 0 < spc) : Slow (needed total t spc reserved rootEntries) :=
  fun _ _ le => fsFatSpfFromClusters_add _ _ _ (clustersBeside_add pos le)

/-- The search is the step taken over and over. -/
theorem spfSearch_eq {n x r : Nat}
    (found : spfSearch total t spc reserved rootEntries n x = some r) :
    r = (needed total t spc reserved rootEntries)^[n] x := by
  induction n generalizing x with
  | zero =>
      simp only [spfSearch, Option.some.injEq] at found
      exact found.symm
  | succ n ih =>
      unfold spfSearch at found
      split at found
      · cases found
      dsimp only at found
      split at found
      · cases found
      split at found
      next fixed =>
        simp only [Option.some.injEq] at found
        subst found
        exact (Function.iterate_fixed fixed (n + 1)).symm
      next =>
        rw [Function.iterate_succ_apply]
        exact ih found

/-! ## What is picked -/

/-- What the search says of a layout. -/
structure LayoutOk (total : Nat) (l : FatLayout) : Prop where
  spc_mem : l.spc ∈ spcChoices
  reserved_eq : l.reserved = reservedOf l.type
  rootEntries_eq : l.rootEntries = rootEntriesOf l.type
  inside : l.reserved + 2 * l.spf + rootSectors l.rootEntries < total
  clusters_eq : l.clusters = clustersBeside total l.spc l.reserved l.rootEntries l.spf
  clusters_pos : 0 < l.clusters
  allows : typeAllows l.type l.clusters = true
  search : l.spf = (needed total l.type l.spc l.reserved l.rootEntries)^[8] 1

variable {l : FatLayout} {best : Option FatLayout}

theorem fsFatTryLayout_eq_some {spf clusters : Nat}
    (eq : fsFatTryLayout total t spc reserved rootEntries = some (spf, clusters)) :
    reserved + 2 * spf + rootSectors rootEntries < total ∧
      clusters = clustersBeside total spc reserved rootEntries spf ∧ 0 < clusters ∧
      spf = (needed total t spc reserved rootEntries)^[8] 1 := by
  unfold fsFatTryLayout at eq
  split at eq
  · cases eq
  split at eq
  · cases eq
  next found =>
    split at eq
    · cases eq
    dsimp only at eq
    split at eq
    · cases eq
    next small pos =>
      simp only [Option.some.injEq, Prod.mk.injEq] at eq
      obtain ⟨rfl, rfl⟩ := eq
      exact ⟨by omega, rfl, by omega, spfSearch_eq found⟩

theorem fatCandidate_ok (mem : spc ∈ spcChoices) (eq : fatCandidate total t spc = some l) :
    LayoutOk total l ∧ l.type = t ∧ l.spc = spc := by
  obtain ⟨⟨spf, clusters⟩, tried, eq⟩ := Option.bind_eq_some_iff.1 eq
  split at eq
  next allows =>
    simp only [Option.some.injEq] at eq
    subst eq
    obtain ⟨inside, eq, pos, search⟩ := fsFatTryLayout_eq_some tried
    exact ⟨⟨mem, rfl, rfl, inside, eq, pos, allows, search⟩, rfl, rfl⟩
  · cases eq

theorem betterLayout_eq (best : Option FatLayout) (l : FatLayout) :
    betterLayout best l = some l ∨ betterLayout best l = best := by
  unfold betterLayout
  split
  · exact .inl rfl
  · split
    · exact .inl rfl
    · exact .inr rfl

/-- What a pass over a list picks is in it, or has been there before. -/
theorem foldl_betterLayout_mem {ls : List FatLayout}
    (eq : ls.foldl betterLayout best = some l) : best = some l ∨ l ∈ ls := by
  induction ls generalizing best with
  | nil => exact .inl eq
  | cons x ls ih =>
      rcases ih eq with found | mem
      · rcases betterLayout_eq best x with same | same
        · rw [same, Option.some.injEq] at found
          exact .inr (found ▸ List.mem_cons_self ..)
        · exact .inl (same ▸ found)
      · exact .inr (List.mem_cons_of_mem _ mem)

/-- It has the largest clusters. -/
theorem foldl_betterLayout_largest {ls : List FatLayout}
    (eq : ls.foldl betterLayout best = some l) :
    (∀ b, best = some b → b.spc ≤ l.spc) ∧ ∀ x ∈ ls, x.spc ≤ l.spc := by
  induction ls generalizing best with
  | nil =>
      obtain rfl : best = some l := eq
      exact ⟨fun b same => by cases same; exact Nat.le_refl _, by simp⟩
  | cons x ls ih =>
      obtain ⟨ofBest, ofRest⟩ := ih eq
      have step : x.spc ≤ l.spc ∧ ∀ b, best = some b → b.spc ≤ l.spc := by
        cases best with
        | none => exact ⟨ofBest x rfl, by simp⟩
        | some b =>
            unfold betterLayout at ofBest
            dsimp only at ofBest
            split at ofBest
            next lt =>
              have := ofBest x rfl
              exact ⟨this, fun b' same => by cases same; omega⟩
            next notLt =>
              have := ofBest b rfl
              exact ⟨by omega, fun b' same => by cases same; omega⟩
      refine ⟨step.2, fun y mem => ?_⟩
      rcases List.mem_cons.1 mem with rfl | mem
      · exact step.1
      · exact ofRest y mem

/-- A layout as it is picked: of FAT32 no candidate has larger clusters. -/
def Picked (total : Nat) (l : FatLayout) : Prop :=
  LayoutOk total l ∧ (l.type = .fat32 →
    ∀ spc ∈ spcChoices, ∀ x, fatCandidate total .fat32 spc = some x → spc ≤ l.spc)

theorem pickOfType_picked (before : ∀ b, best = some b → Picked total b)
    (eq : pickOfType total t best = some l) : Picked total l := by
  have largest : t = .fat32 → ∀ spc ∈ spcChoices, ∀ x,
      fatCandidate total .fat32 spc = some x → spc ≤ l.spc := by
    rintro rfl spc choice x candidate
    have le := (foldl_betterLayout_largest eq).2 x (List.mem_filterMap.2 ⟨spc, choice, candidate⟩)
    exact (fatCandidate_ok choice candidate).2.2 ▸ le
  rcases foldl_betterLayout_mem eq with old | mem
  · exact before l old
  · obtain ⟨spc, choice, candidate⟩ := List.mem_filterMap.1 mem
    obtain ⟨ok, type, -⟩ := fatCandidate_ok choice candidate
    exact ⟨ok, fun fat32 => largest (type ▸ fat32)⟩

theorem pickOfTypes_picked {wanted : Option FatType} {types : List FatType}
    (before : ∀ b, best = some b → Picked total b)
    (eq : pickOfTypes total wanted types best = some l) : Picked total l := by
  induction types generalizing best with
  | nil => exact before l eq
  | cons t types ih =>
      have next : ∀ b, pickOfType total t best = some b → Picked total b :=
        fun b eq => pickOfType_picked before eq
      unfold pickOfTypes at eq
      dsimp only at eq
      split at eq
      · exact next l eq
      · exact ih next eq

theorem fsFatPickLayout_picked {wanted : Option FatType}
    (eq : fsFatPickLayout total wanted = some l) : Picked total l := by
  unfold fsFatPickLayout at eq
  split at eq
  · exact pickOfTypes_picked (by simp) eq
  · exact pickOfTypes_picked (by simp) eq

/-! ## What a picked layout is like -/

theorem spc_bounds (mem : spc ∈ spcChoices) : 0 < spc ∧ spc ≤ 128 ∧ fatIsPowerOfTwo spc = true := by
  revert spc
  decide

namespace LayoutOk

theorem needed_spf (ok : LayoutOk total l) :
    needed total l.type l.spc l.reserved l.rootEntries l.spf =
      fsFatSpfFromClusters l.clusters l.type := by
  rw [needed, ← ok.clusters_eq]

theorem spf_pos (ok : LayoutOk total l) : 0 < l.spf := by
  rw [ok.search, Function.iterate_succ_apply']
  exact fsFatSpfFromClusters_pos _

/-- The search ends with no more than is needed. -/
theorem spf_le (ok : LayoutOk total l) : l.spf ≤ fsFatSpfFromClusters l.clusters l.type := by
  have start : 1 ≤ needed total l.type l.spc l.reserved l.rootEntries 1 :=
    fsFatSpfFromClusters_pos _
  have even := le_next_even needed_anti start 4
  rwa [← ok.search, ok.needed_spf] at even

theorem clustersBeside_le {x : Nat} : clustersBeside total spc reserved rootEntries x ≤ total := by
  unfold clustersBeside
  exact Nat.le_trans (Nat.div_le_self _ _) (by omega)

/-- It ends with the number that is its own need. -/
theorem spf_eq_of_fixed (ok : LayoutOk total l) (lt : total < 4294967296) {s : Nat}
    (fixed : needed total l.type l.spc (reservedOf l.type) (rootEntriesOf l.type) s = s) :
    l.spf = s := by
  rw [← ok.reserved_eq, ← ok.rootEntries_eq] at fixed
  have bound : s ≤ 67108864 := by
    have le : clustersBeside total l.spc l.reserved l.rootEntries s ≤ total := clustersBeside_le
    have grow := fsFatSpfFromClusters_add (t := l.type) 0 _ _
      (show clustersBeside total l.spc l.reserved l.rootEntries s ≤ 0 + 2 * 2147483648 by omega)
    have base : fsFatSpfFromClusters 0 l.type = 1 := by cases l.type <;> decide
    unfold needed at fixed
    omega
  have one : 1 ≤ s := by
    rw [← fixed]
    exact fsFatSpfFromClusters_pos _
  rw [ok.search]
  exact iterate_eight_eq (needed_slow (spc_bounds ok.spc_mem).1) needed_anti fixed one (by omega)

/-- There is such a number when the search ends with what is needed. -/
theorem fixed_iff (ok : LayoutOk total l) (lt : total < 4294967296) (s : Nat) :
    needed total l.type l.spc (reservedOf l.type) (rootEntriesOf l.type) s = s ↔
      l.spf = s ∧ l.spf = fsFatSpfFromClusters l.clusters l.type := by
  constructor
  · intro fixed
    have same := ok.spf_eq_of_fixed lt fixed
    refine ⟨same, ?_⟩
    rw [← ok.needed_spf, ok.reserved_eq, ok.rootEntries_eq, same, fixed]
  · rintro ⟨rfl, same⟩
    rw [← ok.reserved_eq, ← ok.rootEntries_eq, ok.needed_spf, ← same]

end LayoutOk

/-! ## The table of FAT32 stays small -/

/-- On a large partition the search for the largest clusters always goes through. -/
theorem spfSearch_large {n x : Nat} (large : 134217728 ≤ total) (lt : total < 4294967296)
    (small : x ≤ 262146) :
    ∃ r, spfSearch total .fat32 128 32 0 n x = some r ∧ r ≤ 262146 := by
  induction n generalizing x with
  | zero => exact ⟨x, rfl, small⟩
  | succ n ih =>
      unfold spfSearch
      have root : rootSectors 0 = 0 := by decide
      rw [if_neg (by omega)]
      have many : clustersBeside total 128 32 0 x ≠ 0 := by
        unfold clustersBeside
        omega
      dsimp only
      rw [if_neg many]
      split
      · exact ⟨x, rfl, small⟩
      · apply ih
        unfold fsFatSpfFromClusters clustersBeside ataSectorSize
        dsimp only
        split <;> omega

theorem fatCandidate_large (large : 134217728 ≤ total) (lt : total < 4294967296) :
    ∃ x, fatCandidate total .fat32 128 = some x := by
  obtain ⟨r, found, small⟩ := spfSearch_large (n := 8) (x := 1) large lt (by omega)
  have root : rootSectors 0 = 0 := by decide
  have many : 65525 ≤ clustersBeside total 128 32 0 r := by
    unfold clustersBeside
    omega
  have tried : fsFatTryLayout total .fat32 128 32 0 =
      some (r, clustersBeside total 128 32 0 r) := by
    unfold fsFatTryLayout
    rw [if_neg (by omega), found]
    dsimp only
    rw [if_neg (by omega), if_neg (by omega)]
  refine ⟨⟨.fat32, 128, 32, 0, r, clustersBeside total 128 32 0 r⟩, ?_⟩
  show (fsFatTryLayout total .fat32 128 32 0).bind _ = _
  rw [tried]
  show (if typeAllows .fat32 _ then _ else _) = _
  rw [if_pos]
  · rfl
  · simpa [typeAllows] using many

/-- Whatever the size, the table of a picked layout has fewer than `2 ^ 21` sectors a copy. -/
theorem Picked.spf_lt (picked : Picked total l) (lt : total < 4294967296) : l.spf < 2 ^ 21 := by
  obtain ⟨ok, largest⟩ := picked
  have few : l.clusters < 134217728 := by
    cases type : l.type with
    | fat12 =>
        have := ok.allows
        simp only [type, typeAllows, decide_eq_true_eq] at this
        omega
    | fat16 =>
        have := ok.allows
        simp only [type, typeAllows, Bool.and_eq_true, decide_eq_true_eq] at this
        omega
    | fat32 =>
        by_cases large : 134217728 ≤ total
        · obtain ⟨x, candidate⟩ := fatCandidate_large large lt
          have le := largest type 128 (by decide) x candidate
          have most := (spc_bounds ok.spc_mem).2.1
          have same : l.spc = 128 := by omega
          rw [ok.clusters_eq, same]
          unfold clustersBeside
          omega
        · have le : clustersBeside total l.spc l.reserved l.rootEntries l.spf ≤ total :=
            LayoutOk.clustersBeside_le
          rw [ok.clusters_eq]
          omega
  have grow := fsFatSpfFromClusters_add (t := l.type) 0 _ _
    (show l.clusters ≤ 0 + 2 * 67108864 by omega)
  have base : fsFatSpfFromClusters 0 l.type = 1 := by cases l.type <;> decide
  have := ok.spf_le
  omega

end NTux.Fat
