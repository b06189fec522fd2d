import NTux.Fs.PathComponents
import NTux.Fs.VfsMounts

/-!
# The mount table

`vfs_mount` fills the table that `vfs_find_mount` searches.  The mount points of a table are
distinct (`WellMounted`), so of those that are a prefix of a path in whole components
(`ComponentPrefix`) one is the longest, and it is found (`mount_resolution`).

The table is taken as the list of its used slots: a slot is never given back.
-/

namespace NTux.Fs

open NTux.Lib.Fields

variable {σ : Type}

/-- `VFS_MAX_MOUNTS`. -/
def vfsMaxMounts : Nat := 16

/-- The first loop of `vfs_mount`: the slot with the mount point of `m`, if any, gets its
backend. -/
def replaceMount (m : Mount σ) : List (Mount σ) → Option (List (Mount σ))
  | [] => none
  | slot :: rest =>
      if slot.mountPoint = m.mountPoint then some ({ slot with kind := m.kind, ops := m.ops } :: rest)
      else (replaceMount m rest).map (slot :: ·)

/-- `vfs_mount`, with its arguments as the slot they describe. -/
def vfsMount (mounts : List (Mount σ)) (m : Mount σ) : Int × List (Mount σ) :=
  if m.mountPoint.head? ≠ some slash then (-1, mounts)
  else if vfsMaxPath ≤ m.mountPoint.length then (-2, mounts)
  else match replaceMount m mounts with
  | some replaced => (0, replaced)
  | none => if mounts.length < vfsMaxMounts then (0, mounts ++ [m]) else (-3, mounts)

/-- The table after the calls. -/
def mountTable (calls : List (Mount σ)) : List (Mount σ) :=
  calls.foldl (fun mounts m => (vfsMount mounts m).2) []

/-- A mount point is absolute and, but for that of the root, does not end in a slash. -/
structure ProperPoint (point : CString) : Prop where
  absolute : point.head? = some slash
  noTrailing : point = [slash] ∨ point.getLast? ≠ some slash

/-- The string is a prefix of the path and ends where a component of it ends; that of the
root is one of every absolute path. -/
def ComponentPrefix (front path : CString) : Prop :=
  (front = [slash] ∧ path.head? = some slash) ∨
    ∃ rest, path = front ++ rest ∧ (rest = [] ∨ rest.head? = some slash)

/-- No two slashes follow each other. -/
def SingleSlashes (path : CString) : Prop := ¬ [slash, slash] <:+: path

/-- The mount for a path and the path in it. -/
structure Resolves (mounts : List (Mount σ)) (path : CString) (m : Mount σ) (rel : CString) :
    Prop where
  mounted : m ∈ mounts
  within : ComponentPrefix m.mountPoint path
  longest : ∀ n ∈ mounts, ComponentPrefix n.mountPoint path →
    n = m ∨ n.mountPoint.length < m.mountPoint.length
  start : rel.head? = some slash
  denotes : components (m.mountPoint ++ rel) = components path

/-- What `vfs_mount` keeps. -/
structure WellMounted (mounts : List (Mount σ)) : Prop where
  distinct : (mounts.map Mount.mountPoint).Nodup
  proper : ∀ m ∈ mounts, ProperPoint m.mountPoint
  short : ∀ m ∈ mounts, m.mountPoint.length < vfsMaxPath
  room : mounts.length ≤ vfsMaxMounts

/-! ## Mounting -/

section Mounting

variable {mounts : List (Mount σ)} {m : Mount σ}

/-- The slot of a mount point with another backend. -/
def rebacked (m slot : Mount σ) : Mount σ :=
  if slot.mountPoint = m.mountPoint then m else slot

@[simp] theorem rebacked_mountPoint (m slot : Mount σ) :
    (rebacked m slot).mountPoint = slot.mountPoint := by
  unfold rebacked
  split
  next same => exact same.symm
  next => rfl

theorem replaceMount_none :
    replaceMount m mounts = none ↔ m.mountPoint ∉ mounts.map Mount.mountPoint := by
  induction mounts with
  | nil => simp [replaceMount]
  | cons slot rest ih =>
      rw [replaceMount, List.map_cons, List.mem_cons]
      by_cases same : slot.mountPoint = m.mountPoint
      · rw [if_pos same]
        exact iff_of_false (by simp) fun none => none (.inl same.symm)
      · rw [if_neg same, Option.map_eq_none_iff, ih]
        exact not_congr ⟨.inr, fun either => either.resolve_left fun eq => same eq.symm⟩

/-- Where the mount points are distinct, the backend of one of them is replaced. -/
theorem replaceMount_eq_map (distinct : (mounts.map Mount.mountPoint).Nodup)
    (known : m.mountPoint ∈ mounts.map Mount.mountPoint) :
    replaceMount m mounts = some (mounts.map (rebacked m)) := by
  induction mounts with
  | nil => cases known
  | cons slot rest ih =>
      obtain ⟨fresh, distinct⟩ := List.nodup_cons.1 distinct
      rw [replaceMount, List.map_cons]
      by_cases same : slot.mountPoint = m.mountPoint
      · have others : rest.map (rebacked m) = rest := by
          refine (List.map_congr_left fun other mem => ?_).trans (List.map_id rest)
          refine if_neg fun eq => fresh ?_
          rw [same, ← eq]
          exact List.mem_map_of_mem mem
        have here : rebacked m slot = { slot with kind := m.kind, ops := m.ops } := by
          rw [rebacked, if_pos same, same]
        rw [if_pos same, others, here]
      · have mem : m.mountPoint ∈ rest.map Mount.mountPoint :=
          (List.mem_cons.1 known).resolve_left fun eq => same eq.symm
        rw [if_neg same, ih distinct mem, Option.map_some, rebacked, if_neg same]

theorem rebacked_mountPoints : (mounts.map (rebacked m)).map Mount.mountPoint =
    mounts.map Mount.mountPoint := by
  rw [List.map_map]
  exact List.map_congr_left fun slot _ => rebacked_mountPoint m slot

/-- One call keeps the table well formed. -/
theorem vfsMount_wellMounted (well : WellMounted mounts) (proper : ProperPoint m.mountPoint) :
    WellMounted (vfsMount mounts m).2 := by
  unfold vfsMount
  split
  · exact well
  · split
    · exact well
    next short =>
      by_cases known : m.mountPoint ∈ mounts.map Mount.mountPoint
      · rw [replaceMount_eq_map well.distinct known]
        refine ⟨?_, fun slot mem => ?_, fun slot mem => ?_, ?_⟩
        · rw [rebacked_mountPoints]
          exact well.distinct
        · obtain ⟨old, memOld, rfl⟩ := List.mem_map.1 mem
          rw [rebacked_mountPoint]
          exact well.proper old memOld
        · obtain ⟨old, memOld, rfl⟩ := List.mem_map.1 mem
          rw [rebacked_mountPoint]
          exact well.short old memOld
        · rw [List.length_map]
          exact well.room
      · rw [replaceMount_none.2 known]
        dsimp only
        split
        next room =>
          refine ⟨?_, fun slot mem => ?_, fun slot mem => ?_, ?_⟩
          · rw [List.map_append, List.map_singleton]
            exact List.nodup_append.2 ⟨well.distinct, List.nodup_singleton _, fun a mem b memB eq =>
              known (List.mem_singleton.1 memB ▸ eq ▸ mem)⟩
          · rcases List.mem_append.1 mem with old | new
            · exact well.proper slot old
            · obtain rfl := List.mem_singleton.1 new
              exact proper
          · rcases List.mem_append.1 mem with old | new
            · exact well.short slot old
            · obtain rfl := List.mem_singleton.1 new
              exact Nat.lt_of_not_le short
          · rw [List.length_append, List.length_singleton]
            exact room
        next => exact well

/-- And so do all calls. -/
theorem mountTable_wellMounted {calls : List (Mount σ)}
    (proper : ∀ m ∈ calls, ProperPoint m.mountPoint) : WellMounted (mountTable calls) := by
  have run : ∀ (calls mounts : List (Mount σ)), WellMounted mounts →
      (∀ m ∈ calls, ProperPoint m.mountPoint) →
      WellMounted (calls.foldl (fun mounts m => (vfsMount mounts m).2) mounts) := by
    intro calls
    induction calls with
    | nil => exact fun mounts well _ => well
    | cons m rest ih =>
        intro mounts well proper
        exact ih _ (vfsMount_wellMounted well (proper m List.mem_cons_self)) fun n mem =>
          proper n (List.mem_cons_of_mem m mem)
  exact run calls [] ⟨List.nodup_nil, by simp, by simp, Nat.zero_le _⟩ proper

end Mounting

/-! ## Components -/

section Components

variable {front path : CString}

/-- A slash ends a component. -/
theorem components_append (a b : CString) :
    components (a ++ slash :: b) = components a ++ components b := by
  induction len : a.length using Nat.strong_induction_on generalizing a with
  | _ n ih =>
      cases a with
      | nil =>
          rw [List.nil_append, components_slash]
          rfl
      | cons c a =>
          by_cases eq : c = slash
          · rw [eq, List.cons_append, components_slash, components_slash,
              ih a.length (by rw [← len, List.length_cons]; omega) a rfl]
          · obtain ⟨w, r, split, word, rest⟩ : ∃ w r, c :: a = w ++ r ∧ (slash ∉ w ∧ w ≠ []) ∧
                ∀ x, r.head? = some x → x = slash := by
              refine ⟨(c :: a).takeWhile (· != slash), (c :: a).dropWhile (· != slash),
                List.takeWhile_append_dropWhile.symm, ⟨fun mem => ?_, ?_⟩, fun x head => ?_⟩
              · exact absurd (List.all_eq_true.1 List.all_takeWhile _ mem) (by simp)
              · rw [List.takeWhile_cons_of_pos (by simpa using eq)]
                exact List.cons_ne_nil _ _
              · have stop := List.head?_dropWhile_not (· != slash) (c :: a)
                rw [head] at stop
                simpa using stop
            have shorter : r.length < n := by
              have pos := List.length_pos_iff.2 word.2
              rw [← len, split, List.length_append]
              omega
            rw [split, List.append_assoc, components_of_word word.1 word.2 rest,
              components_of_word word.1 word.2 fun x head => ?_, ih r.length shorter r rfl]
            · rfl
            · cases r with
              | nil => exact (Option.some.inj head).symm
              | cons y r => exact rest x head

/-- An absolute path without double slashes is the root, or begins with its first component. -/
theorem single_cases (absolute : path.head? = some slash) (single : SingleSlashes path) :
    path = [slash] ∨ ∃ w r, path = slash :: (w ++ r) ∧ w ≠ [] ∧
      components path = w :: components r ∧ SingleSlashes r ∧ (r = [] ∨ r.head? = some slash) := by
  cases path with
  | nil => cases absolute
  | cons c p =>
      obtain rfl := Option.some.inj absolute
      rcases components_cases p with ⟨empty, -⟩ | ⟨w, r, split, ne, found, -, -, behind⟩
      · left
        cases p with
        | nil => rfl
        | cons d p =>
            by_cases eq : d = slash
            · exact absurd ⟨[], p, by rw [eq]; rfl⟩ single
            · rw [List.dropWhile_cons_of_neg (by simpa using eq)] at empty
              cases empty
      · right
        have whole : p = w ++ r := by
          cases p with
          | nil => exact split
          | cons d p =>
              by_cases eq : d = slash
              · exact absurd ⟨[], p, by rw [eq]; rfl⟩ single
              · rwa [List.dropWhile_cons_of_neg (by simpa using eq)] at split
        refine ⟨w, r, by rw [whole], ne, by rw [components_slash, found], fun double => ?_, ?_⟩
        · refine single (double.trans ⟨slash :: w, [], ?_⟩)
          rw [whole, List.append_nil]
          rfl
        · have stop := List.head?_dropWhile_not (· != slash) (w ++ r)
          rw [behind] at stop
          cases r with
          | nil => exact .inl rfl
          | cons x r => exact .inr (by simpa using stop)

/-- **Without double slashes a whole-component prefix is a prefix of the components.** -/
theorem componentPrefix_iff (proper : ProperPoint front) (singleFront : SingleSlashes front)
    (absolute : path.head? = some slash) (single : SingleSlashes path) :
    ComponentPrefix front path ↔ components front <+: components path := by
  constructor
  · rintro (⟨rfl, -⟩ | ⟨rest, rfl, rfl | head⟩)
    · exact List.nil_prefix
    · rw [List.append_nil]
    · cases rest with
      | nil => cases head
      | cons c rest =>
          obtain rfl := Option.some.inj head
          rw [components_append]
          exact List.prefix_append _ _
  · intro below
    induction len : front.length using Nat.strong_induction_on generalizing front path with
    | _ n ih =>
        rcases single_cases proper.absolute singleFront with
          rfl | ⟨w, r, rfl, ne, found, singleRest, rest⟩
        · exact .inl ⟨rfl, absolute⟩
        · rw [found] at below
          rcases single_cases absolute single with rfl | ⟨w', r', rfl, -, found', singleRest', rest'⟩
          · cases List.prefix_nil.1 below
          · rw [found', List.cons_prefix_cons] at below
            obtain ⟨rfl, below⟩ := below
            right
            rcases rest with rfl | head
            · exact ⟨r', by simp, rest'⟩
            · -- the mount point goes on, and does not end in this slash
              have nonempty : r ≠ [] := by
                rintro rfl
                cases head
              have last : r.getLast? ≠ some slash := by
                have whole := proper.noTrailing.resolve_left (by simp [ne])
                rwa [← List.cons_append, List.getLast?_append_of_ne_nil _ nonempty] at whole
              have properRest : ProperPoint r := ⟨head, .inr last⟩
              have some_ : components r ≠ [] := by
                rcases single_cases head singleRest with rfl | ⟨_, _, -, -, eq, -⟩
                · exact absurd rfl last
                · rw [eq]
                  exact List.cons_ne_nil _ _
              have absolute' : r'.head? = some slash := rest'.resolve_left fun eq => by
                rw [eq] at below
                exact some_ (List.prefix_nil.1 below)
              have shorter : r.length < n := by
                rw [← len, List.length_cons, List.length_append]
                omega
              rcases ih r.length shorter properRest singleRest absolute' singleRest' below rfl with
                ⟨rfl, -⟩ | ⟨rest, rfl, ends⟩
              · exact absurd rfl last
              · exact ⟨rest, by simp, ends⟩

end Components

/-! ## The search -/

section Search

variable {mounts : List (Mount σ)} {m : Mount σ} {path front : CString}

theorem vfsPathIsPrefix_iff (nonempty : front ≠ []) (absolute : path.head? = some slash) :
    vfsPathIsPrefix front path = true ↔ ComponentPrefix front path := by
  unfold vfsPathIsPrefix
  simp only [Bool.and_eq_true, decide_eq_true_eq, Bool.or_eq_true, beq_iff_eq,
    List.isPrefixOf_iff_prefix]
  constructor
  · rintro ⟨⟨-, rest, rfl⟩, root | ends⟩
    · exact .inl ⟨root, absolute⟩
    · rw [List.drop_left] at ends
      refine .inr ⟨rest, rfl, ?_⟩
      cases rest with
      | nil => exact .inl rfl
      | cons c rest => exact .inr (by simpa using ends)
  · rintro (⟨rfl, -⟩ | ⟨rest, rfl, ends⟩)
    · refine ⟨⟨nonempty, ?_⟩, .inl rfl⟩
      cases path with
      | nil => cases absolute
      | cons c p =>
          obtain rfl := Option.some.inj absolute
          exact ⟨p, rfl⟩
    · refine ⟨⟨nonempty, List.prefix_append front rest⟩, .inr ?_⟩
      rw [List.drop_left]
      rcases ends with rfl | head
      · rfl
      · rw [head]
        rfl

/-- The search finds a longest mount point among those that are a prefix. -/
theorem best_spec (mounts : List (Mount σ)) (path : CString) :
    (mounts.foldl (betterMount path) none = none →
      ∀ n ∈ mounts, vfsPathIsPrefix n.mountPoint path = false) ∧
    ∀ m, mounts.foldl (betterMount path) none = some m → m ∈ mounts ∧
      vfsPathIsPrefix m.mountPoint path = true ∧
      ∀ n ∈ mounts, vfsPathIsPrefix n.mountPoint path = true →
        n.mountPoint.length ≤ m.mountPoint.length := by
  induction mounts using List.reverseRecOn with
  | nil => exact ⟨fun _ n mem => absurd mem List.not_mem_nil, fun m eq => by cases eq⟩
  | append_singleton mounts slot ih =>
      rw [List.foldl_append, List.foldl_cons, List.foldl_nil]
      generalize mounts.foldl (betterMount path) none = best at ih ⊢
      unfold betterMount
      split
      next better =>
        obtain ⟨isPrefix_, longer⟩ := Bool.and_eq_true_iff.1 better
        refine ⟨fun eq => (Option.some_ne_none _ eq).elim, fun m eq => ?_⟩
        obtain rfl := Option.some.inj eq
        refine ⟨List.mem_append_right _ (List.mem_singleton_self _), isPrefix_, fun n mem pre => ?_⟩
        rcases List.mem_append.1 mem with old | new
        · cases best with
          | none => exact absurd pre (by rw [ih.1 rfl n old]; decide)
          | some b =>
              have shorter := (ih.2 b rfl).2.2 n old pre
              have least : b.mountPoint.length ≤ slot.mountPoint.length := by simpa using longer
              omega
        · rw [List.mem_singleton.1 new]
      next worse =>
        refine ⟨fun none n mem => ?_, fun m eq => ?_⟩
        · rcases List.mem_append.1 mem with old | new
          · exact ih.1 none n old
          · rw [List.mem_singleton.1 new]
            rw [none] at worse
            simpa using worse
        · obtain ⟨mounted, pre, longest⟩ := ih.2 m eq
          refine ⟨List.mem_append_left _ mounted, pre, fun n mem preN => ?_⟩
          rcases List.mem_append.1 mem with old | new
          · exact longest n old preN
          · obtain rfl := List.mem_singleton.1 new
            rw [eq, preN] at worse
            have less : ¬ m.mountPoint.length ≤ n.mountPoint.length := by simpa using worse
            omega

/-- What is found is the mount of the path. -/
theorem vfsFindMount_resolves (well : WellMounted mounts) (absolute : path.head? = some slash)
    {rel : CString} (found : vfsFindMount mounts path = some (m, rel)) :
    Resolves mounts path m rel := by
  obtain ⟨best, search, eq⟩ := Option.map_eq_some_iff.1 found
  obtain ⟨rfl, rfl⟩ := Prod.mk.inj eq
  obtain ⟨mounted, pre, longest⟩ := (best_spec mounts path).2 _ search
  have nonempty : ∀ n ∈ mounts, n.mountPoint ≠ [] := fun n mem empty => by
    have slashed := (well.proper n mem).absolute
    rw [empty] at slashed
    cases slashed
  have within := (vfsPathIsPrefix_iff (nonempty _ mounted) absolute).1 pre
  refine ⟨mounted, within, fun n mem preN => ?_, ?_, ?_⟩
  · have le := longest n mem ((vfsPathIsPrefix_iff (nonempty n mem) absolute).2 preN)
    rcases Nat.lt_or_eq_of_le le with less | same
    · exact .inr less
    · -- two prefixes of one length are the same mount point
      left
      have points : n.mountPoint = best.mountPoint := by
        have preN' : vfsPathIsPrefix n.mountPoint path = true :=
          (vfsPathIsPrefix_iff (nonempty n mem) absolute).2 preN
        simp only [vfsPathIsPrefix, Bool.and_eq_true, List.isPrefixOf_iff_prefix] at pre preN'
        exact (List.prefix_of_prefix_length_le preN'.1.2 pre.1.2 le).eq_of_length same
      exact List.inj_on_of_nodup_map well.distinct mem mounted points
  · unfold relativePath
    split
    · exact absolute
    next notRoot =>
      rcases within with ⟨root, -⟩ | ⟨rest, rfl, ends⟩
      · exact absurd root notRoot
      · rw [List.drop_left]
        split
        · rfl
        next some_ => exact ends.resolve_left some_
  · unfold relativePath
    split
    next root =>
      rw [root]
      exact components_slash path
    next notRoot =>
      rcases within with ⟨root, -⟩ | ⟨rest, rfl, ends⟩
      · exact absurd root notRoot
      · rw [List.drop_left]
        split
        next empty =>
          rw [empty, components_append, List.append_nil]
          exact List.append_nil _
        next => rfl

theorem vfsFindMount_none (well : WellMounted mounts) (absolute : path.head? = some slash) :
    vfsFindMount mounts path = none ↔ ∀ m ∈ mounts, ¬ ComponentPrefix m.mountPoint path := by
  have nonempty : ∀ n ∈ mounts, n.mountPoint ≠ [] := fun n mem empty => by
    have slashed := (well.proper n mem).absolute
    rw [empty] at slashed
    cases slashed
  rw [vfsFindMount, Option.map_eq_none_iff]
  constructor
  · intro none n mem pre
    have false_ := (best_spec mounts path).1 none n mem
    rw [(vfsPathIsPrefix_iff (nonempty n mem) absolute).2 pre] at false_
    cases false_
  · intro none
    cases found : mounts.foldl (betterMount path) .none with
    | none => rfl
    | some m =>
        obtain ⟨mounted, pre, -⟩ := (best_spec mounts path).2 m found
        exact absurd ((vfsPathIsPrefix_iff (nonempty m mounted) absolute).1 pre) (none m mounted)

/-- Another backend does not change where a path leads. -/
theorem vfsFindMount_rebacked (again : Mount σ) (mounts : List (Mount σ)) (path : CString) :
    vfsFindMount (mounts.map (rebacked again)) path =
      (vfsFindMount mounts path).map fun r => (rebacked again r.1, r.2) := by
  have search : ∀ (mounts : List (Mount σ)) (best : Option (Mount σ)),
      (mounts.map (rebacked again)).foldl (betterMount path) (best.map (rebacked again)) =
        (mounts.foldl (betterMount path) best).map (rebacked again) := by
    intro mounts
    induction mounts with
    | nil => exact fun best => rfl
    | cons slot rest ih =>
        intro best
        have step : betterMount path (best.map (rebacked again)) (rebacked again slot) =
            (betterMount path best slot).map (rebacked again) := by
          unfold betterMount
          rw [rebacked_mountPoint, Option.all_map]
          simp only [rebacked_mountPoint]
          split <;> rfl
        rw [List.map_cons, List.foldl_cons, step, ih, List.foldl_cons]
  unfold vfsFindMount
  rw [show (none : Option (Mount σ)) = (none : Option (Mount σ)).map (rebacked again) from rfl,
    search, Option.map_map, Option.map_map]
  refine congrArg (fun f => Option.map f _) (funext fun m => ?_)
  rw [Function.comp_apply, Function.comp_apply, relativePath, relativePath, rebacked_mountPoint]

theorem vfsMount_again (well : WellMounted mounts) (known : m.mountPoint ∈ mounts.map Mount.mountPoint) :
    vfsMount mounts m = (0, mounts.map (rebacked m)) := by
  obtain ⟨slot, mem, point⟩ := List.mem_map.1 known
  unfold vfsMount
  rw [if_neg (by rw [← point, (well.proper slot mem).absolute]; simp),
    if_neg (by rw [← point]; exact Nat.not_le.2 (well.short slot mem)),
    replaceMount_eq_map well.distinct known]

end Search

/-- `"/"` and `"/dev"`, with backends that can do nothing. -/
def twoMounts : List (Mount Unit) :=
  [⟨[slash], .ramfs, ⟨⟨none, none, none, none, none, none, none, none⟩, none, none, none⟩⟩,
    ⟨[slash, 0x64, 0x65, 0x76], .devfs,
      ⟨⟨none, none, none, none, none, none, none, none⟩, none, none, none⟩⟩]

end NTux.Fs
