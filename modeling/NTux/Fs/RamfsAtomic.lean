import NTux.Fs.PathComponents
import NTux.Fs.RamfsPool
import Mathlib.Data.Finset.Card
import Mathlib.Data.List.Find

/-!
# What a creation that fails leaves behind

`ramfs_resolve` makes the directories that are missing on the way to a name, one after the
other, and `ramfs_op_create_file` makes the file before it asks the pool for its bytes.  Nothing
is taken back when a later step fails.

`ramfsMissing` is the directory the walk ends in and the number of components missing below it.
A creation that fails changes nothing exactly if it fails before the first node is made, which is
when that directory or the table of nodes is full (`creation_all_or_nothing_iff`).
-/

namespace NTux.Fs

/-- The walk without creating anything: where the first component is missing, its directory and
the number of components from it on. -/
def ramfsMissingLoop (fs : Ramfs) : Nat → CString → List CString → Option (Nat × Nat)
  | cur, tok, [] =>
      match ramfsFindChild fs cur tok with
      | some _ => none
      | none => some (cur, 1)
  | cur, tok, next :: rest =>
      match ramfsFindChild fs cur tok with
      | some child => if (fs.nodes child).type = .dir then ramfsMissingLoop fs child next rest else none
      | none => some (cur, rest.length + 2)

/-- Where a path stops to exist; `none` if it exists, is no absolute path, or goes through a
file. -/
def ramfsMissing (fs : Ramfs) (path : CString) : Option (Nat × Nat) :=
  if path.head? ≠ some slash then none
  else
    match ramfsPathTokens path with
    | [] => none
    | tok :: rest => ramfsMissingLoop fs fs.rootIndex tok rest

/-- The number of nodes of the table that are not in use. -/
def freeNodes (fs : Ramfs) : Nat :=
  ((Finset.range ramfsMaxNodes).filter fun i => (fs.nodes i).used = false).card

/-- Where components are missing, none can be made, or all of them and what is to follow. -/
def AllOrNone (fs : Ramfs) (path : CString) (fits : Prop) : Prop :=
  ∀ d missing, ramfsMissing fs path = some (d, missing) →
    ramfsMaxChildren ≤ (fs.nodes d).childCount ∨ freeNodes fs = 0 ∨
      (missing ≤ freeNodes fs ∧ fits)

/-- The pool has room for a new file of that length. -/
def PoolFits (fs : Ramfs) (len : Nat) : Prop := len = 0 ∨ fs.filePoolUsed + len ≤ ramfsMaxFileBytes

/-- If the call has failed the paths that exist and the contents of the files are those of
before. -/
def UntouchedOnError (fs : Ramfs) (result : Int × Ramfs) : Prop :=
  result.1 ≠ 0 →
    (∀ path, ramfsOpExists result.2 path = ramfsOpExists fs path) ∧
      ∀ path cap, ramfsOpReadFile result.2 path cap = ramfsOpReadFile fs path cap

/-- The root is in use, and so is what the nodes in use list. -/
structure ListsUsed (fs : Ramfs) : Prop where
  root : (fs.nodes fs.rootIndex).used = true
  entries : ∀ p, (fs.nodes p).used = true → ∀ c ∈ (fs.nodes p).entries, (fs.nodes c).used = true

/-- Nodes were added: the others keep their names and types, and list at first what they listed. -/
structure Extends (fs fs' : Ramfs) : Prop where
  root : fs'.rootIndex = fs.rootIndex
  used : ∀ i, (fs.nodes i).used = true → (fs'.nodes i).used = true
  name : ∀ i, (fs.nodes i).used = true → (fs'.nodes i).name = (fs.nodes i).name
  type : ∀ i, (fs.nodes i).used = true → (fs'.nodes i).type = (fs.nodes i).type
  entries : ∀ i, (fs.nodes i).used = true → (fs.nodes i).entries <+: (fs'.nodes i).entries

theorem RamfsInv.listsUsed {fs : Ramfs} (inv : RamfsInv fs) : ListsUsed fs :=
  ⟨inv.tree.root_used, fun p used c mem => (inv.tree.entry p used c mem).1⟩

section Growing

variable {fs fs' fs'' : Ramfs} {p c d cur idx : Nat} {name tok : CString}

theorem Extends.refl (fs : Ramfs) : Extends fs fs :=
  ⟨rfl, fun _ used => used, fun _ _ => rfl, fun _ _ => rfl, fun _ _ => List.prefix_rfl⟩

theorem Extends.trans (first : Extends fs fs') (second : Extends fs' fs'') : Extends fs fs'' :=
  ⟨second.root.trans first.root, fun i used => second.used i (first.used i used),
    fun i used => (second.name i (first.used i used)).trans (first.name i used),
    fun i used => (second.type i (first.used i used)).trans (first.type i used),
    fun i used => (first.entries i used).trans (second.entries i (first.used i used))⟩

theorem RamfsSameShape.extends_ (same : RamfsSameShape fs fs') : Extends fs fs' :=
  ⟨same.root, fun i used => (same.used i).trans used, fun i _ => same.name i, fun i _ => same.type i,
    fun i _ => by rw [RamfsNode.entries, RamfsNode.entries, same.childCount, same.children]⟩

/-- What is found is found later on. -/
theorem Extends.find (grown : Extends fs fs') (ok : ListsUsed fs) (used : (fs.nodes p).used = true)
    (found : ramfsFindChild fs p tok = some c) : ramfsFindChild fs' p tok = some c := by
  obtain ⟨more, entries⟩ := grown.entries p used
  have same : ∀ e ∈ (fs.nodes p).entries,
      ((fs'.nodes e).used && (fs'.nodes e).name == tok) =
        ((fs.nodes e).used && (fs.nodes e).name == tok) := by
    intro e mem
    have usedE := ok.entries p used e mem
    rw [grown.name e usedE, grown.used e usedE, usedE]
  unfold ramfsFindChild at found ⊢
  rw [← entries, List.find?_append, List.find?_congr same, found]
  rfl

theorem ramfsAllocScan_eq_none {fuel i : Nat} (none_ : ramfsAllocScan fs fuel i = none) :
    ∀ j, i ≤ j → j < i + fuel → (fs.nodes j).used = true := by
  induction fuel generalizing i with
  | zero => exact fun j low high => absurd high (by omega)
  | succ fuel ih =>
      intro j low high
      rw [ramfsAllocScan] at none_
      split at none_
      next used =>
        rcases Nat.eq_or_lt_of_le low with rfl | less
        · exact used
        · exact ih none_ j less (by omega)
      next => cases none_

theorem ramfsAllocNode_none (none_ : freeNodes fs ≠ 0) : ramfsAllocNode fs ≠ none := by
  intro full
  obtain ⟨i, mem⟩ := Finset.card_pos.1 (Nat.pos_of_ne_zero none_)
  obtain ⟨inTable, unused⟩ := Finset.mem_filter.1 mem
  have used := ramfsAllocScan_eq_none (Option.map_eq_none_iff.1 full) i (Nat.zero_le i)
    (by rw [Nat.zero_add]; exact Finset.mem_range.1 inTable)
  rw [unused] at used
  cases used

/-- The nodes behind a creation: the new one, its directory, and the others. -/
structure ChildPlaced (fs fs' : Ramfs) (p idx : Nat) (name : CString) (type : RamfsNodeType) :
    Prop where
  root : fs'.rootIndex = fs.rootIndex
  pool : fs'.filePoolUsed = fs.filePoolUsed
  inTable : idx < ramfsMaxNodes
  unused : (fs.nodes idx).used = false
  atIdx : fs'.nodes idx = { RamfsNode.zero with
    used := true, type := type, parent := p, name := ramfsCopyName name }
  atP : fs'.nodes p = (fs.nodes p).addChild idx
  others : ∀ i, i ≠ p → i ≠ idx → fs'.nodes i = fs.nodes i

theorem ramfsCreateChild_placed {type : RamfsNodeType} (usedP : (fs.nodes p).used = true)
    (create : ramfsCreateChild fs p name type = .ok (idx, fs')) :
    ChildPlaced fs fs' p idx name type := by
  obtain ⟨-, lt, unused, rfl⟩ := ramfsCreateChild_ok create
  have apart : p ≠ idx := by
    rintro rfl
    exact absurd (unused.symm.trans usedP) (by simp)
  refine ⟨rfl, rfl, lt, unused, ?_, ?_, fun i neP neIdx => ?_⟩
  · rw [Ramfs.setNode_nodes_of_ne _ _ apart.symm, Ramfs.setNode_nodes_self]
  · rw [Ramfs.setNode_nodes_self, Ramfs.setNode_nodes_of_ne _ _ apart]
  · rw [Ramfs.setNode_nodes_of_ne _ _ neP, Ramfs.setNode_nodes_of_ne _ _ neIdx]

namespace ChildPlaced

variable {type : RamfsNodeType}

theorem ne_idx (placed : ChildPlaced fs fs' p idx name type) (used : (fs.nodes c).used = true) :
    c ≠ idx := by
  rintro rfl
  exact absurd (placed.unused.symm.trans used) (by simp)

theorem entriesP (placed : ChildPlaced fs fs' p idx name type) :
    (fs'.nodes p).entries = (fs.nodes p).entries ++ [idx] := by
  rw [placed.atP, RamfsNode.entries_addChild]

theorem extends_ (placed : ChildPlaced fs fs' p idx name type) : Extends fs fs' := by
  have others : ∀ i, (fs.nodes i).used = true → i ≠ p → fs'.nodes i = fs.nodes i :=
    fun i used neP => placed.others i neP (placed.ne_idx used)
  refine ⟨placed.root, fun i used => ?_, fun i used => ?_, fun i used => ?_, fun i used => ?_⟩
  all_goals
    rcases eq_or_ne i p with rfl | neP
  · rw [placed.atP]
    exact used
  · rwa [others i used neP]
  · rw [placed.atP]
    rfl
  · rw [others i used neP]
  · rw [placed.atP]
    rfl
  · rw [others i used neP]
  · rw [placed.entriesP]
    exact List.prefix_append _ _
  · rw [others i used neP]

theorem listsUsed (placed : ChildPlaced fs fs' p idx name type) (ok : ListsUsed fs)
    (usedP : (fs.nodes p).used = true) : ListsUsed fs' := by
  have grown := placed.extends_
  refine ⟨?_, fun i used c mem => ?_⟩
  · rw [grown.root]
    exact grown.used _ ok.root
  · rcases eq_or_ne i p with rfl | neP
    · rw [placed.entriesP] at mem
      rcases List.mem_append.1 mem with old | new
      · exact grown.used c (ok.entries i usedP c old)
      · rw [List.mem_singleton.1 new, placed.atIdx]
    · rcases eq_or_ne i idx with rfl | neIdx
      · rw [placed.atIdx] at mem
        cases mem
      · rw [placed.others i neP neIdx] at used mem
        exact grown.used c (ok.entries i used c mem)

theorem free (placed : ChildPlaced fs fs' p idx name type) : freeNodes fs' + 1 = freeNodes fs := by
  have erased : ((Finset.range ramfsMaxNodes).filter fun i => (fs'.nodes i).used = false) =
      ((Finset.range ramfsMaxNodes).filter fun i => (fs.nodes i).used = false).erase idx := by
    ext i
    rw [Finset.mem_erase, Finset.mem_filter, Finset.mem_filter]
    rcases eq_or_ne i idx with rfl | neIdx
    · rw [placed.atIdx]
      simp
    · rcases eq_or_ne i p with rfl | neP
      · rw [placed.atP]
        simp [RamfsNode.addChild, neIdx]
      · rw [placed.others i neP neIdx]
        simp [neIdx]
  unfold freeNodes
  rw [erased]
  exact Finset.card_erase_add_one
    (Finset.mem_filter.2 ⟨Finset.mem_range.2 placed.inTable, placed.unused⟩)

/-- The new node is found where there was none of its name. -/
theorem found (placed : ChildPlaced fs fs' p idx name type) (ok : ListsUsed fs)
    (usedP : (fs.nodes p).used = true) (short : ramfsCopyName name = name)
    (absent : ramfsFindChild fs p name = none) : ramfsFindChild fs' p name = some idx := by
  have grown := placed.extends_
  have old : (fs.nodes p).entries.find?
      (fun c => (fs'.nodes c).used && (fs'.nodes c).name == name) = none := by
    unfold ramfsFindChild at absent
    rw [← absent]
    refine List.find?_congr fun c mem => ?_
    have usedC := ok.entries p usedP c mem
    rw [grown.name c usedC, grown.used c usedC, usedC]
  unfold ramfsFindChild
  rw [placed.entriesP, List.find?_append, old, Option.none_or, List.find?_cons_of_pos]
  rw [placed.atIdx]
  simp [short]

end ChildPlaced

/-- A node that is made. -/
structure Made (fs fs' : Ramfs) (p idx : Nat) (name : CString) (type : RamfsNodeType) : Prop where
  extends_ : Extends fs fs'
  ok : ListsUsed fs'
  free : freeNodes fs' + 1 = freeNodes fs
  pool : fs'.filePoolUsed = fs.filePoolUsed
  used : (fs'.nodes idx).used = true
  type_ : (fs'.nodes idx).type = type
  empty : (fs'.nodes idx).childCount = 0
  blank : (fs'.nodes idx).capacity = 0
  found : ramfsCopyName name = name → ramfsFindChild fs p name = none →
    ramfsFindChild fs' p name = some idx

theorem ramfsCreateChild_made {type : RamfsNodeType} (ok : ListsUsed fs)
    (usedP : (fs.nodes p).used = true) (create : ramfsCreateChild fs p name type = .ok (idx, fs')) :
    Made fs fs' p idx name type := by
  have placed := ramfsCreateChild_placed usedP create
  refine ⟨placed.extends_, placed.listsUsed ok usedP, placed.free, placed.pool, ?_, ?_, ?_, ?_,
    placed.found ok usedP⟩
  · rw [placed.atIdx]
  · rw [placed.atIdx]
  · rw [placed.atIdx]
    rfl
  · rw [placed.atIdx]
    rfl

/-- It is made where the directory and the table have room. -/
theorem ramfsCreateChild_cases (type : RamfsNodeType) (ok : ListsUsed fs)
    (usedP : (fs.nodes p).used = true) (name : CString) :
    ((ramfsMaxChildren ≤ (fs.nodes p).childCount ∨ freeNodes fs = 0) ∧
        ∃ rc, ramfsCreateChild fs p name type = .error rc) ∨
      ((fs.nodes p).childCount < ramfsMaxChildren ∧ freeNodes fs ≠ 0 ∧
        ∃ idx fs', ramfsCreateChild fs p name type = .ok (idx, fs') ∧
          Made fs fs' p idx name type) := by
  cases create : ramfsCreateChild fs p name type with
  | ok made =>
      obtain ⟨idx, fs'⟩ := made
      have node := ramfsCreateChild_made ok usedP create
      have free := node.free
      exact .inr ⟨(ramfsCreateChild_ok create).1, by omega, idx, fs', rfl, node⟩
  | error rc =>
      refine .inl ⟨?_, rc, rfl⟩
      by_contra room
      obtain ⟨notFull, free⟩ := not_or.1 room
      unfold ramfsCreateChild at create
      rw [if_neg notFull] at create
      cases alloc : ramfsAllocNode fs with
      | none => exact ramfsAllocNode_none free alloc
      | some found =>
          rw [alloc] at create
          cases create

end Growing

/-! ## Walking -/

section Walking

variable {fs fs' : Ramfs} {cur d idx : Nat} {pre more rest : List CString} {t tok : CString}
  {createDirs : Bool}

/-- The walk of `ramfs_resolve` over the components of a path. -/
def ramfsResolveTokens (createDirs : Bool) (fs : Ramfs) (cur : Nat) : List CString → RamfsResolution
  | [] => ⟨fs, .ok cur, some cur, []⟩
  | tok :: rest => ramfsResolveLoop createDirs fs cur tok rest

theorem ramfsResolve_tokens {path : CString} (absolute : path.head? = some slash) :
    ramfsResolve fs path createDirs =
      ramfsResolveTokens createDirs fs fs.rootIndex (ramfsPathTokens path) := by
  unfold ramfsResolve
  rw [if_neg (not_not.2 absolute)]
  cases ramfsPathTokens path with
  | nil => rfl
  | cons tok rest => rfl

/-- The components lead from one directory to another. -/
def Leads (fs : Ramfs) : Nat → List CString → Nat → Prop
  | cur, [], d => cur = d
  | cur, t :: pre, d =>
      ∃ c, ramfsFindChild fs cur t = some c ∧ (fs.nodes c).type = .dir ∧ Leads fs c pre d

theorem Leads.resolve (leads : Leads fs cur pre d) {s : List CString} (some_ : s ≠ []) :
    ramfsResolveTokens createDirs fs cur (pre ++ s) = ramfsResolveTokens createDirs fs d s := by
  induction pre generalizing cur with
  | nil =>
      obtain rfl : cur = d := leads
      rfl
  | cons t pre ih =>
      obtain ⟨c, found, dir, leads⟩ := leads
      rw [← ih leads]
      cases whole : pre ++ s with
      | nil => exact absurd (List.append_eq_nil_iff.1 whole).2 some_
      | cons next rest =>
          rw [List.cons_append, whole]
          show ramfsResolveLoop createDirs fs cur t (next :: rest) = _
          rw [ramfsResolveLoop, found]
          exact if_pos dir

theorem Leads.used (leads : Leads fs cur pre d)
    (used : (fs.nodes cur).used = true) : (fs.nodes d).used = true := by
  induction pre generalizing cur with
  | nil =>
      obtain rfl : cur = d := leads
      exact used
  | cons t pre ih =>
      obtain ⟨c, found, -, leads⟩ := leads
      exact ih leads (ramfsFindChild_eq_some found).2.1

theorem Leads.extends_ (ok : ListsUsed fs) (grown : Extends fs fs')
    (used : (fs.nodes cur).used = true) (leads : Leads fs cur pre d) : Leads fs' cur pre d := by
  induction pre generalizing cur with
  | nil => exact leads
  | cons t pre ih =>
      obtain ⟨c, found, dir, leads⟩ := leads
      have usedC := (ramfsFindChild_eq_some found).2.1
      exact ⟨c, grown.find ok used found, (grown.type c usedC).trans dir, ih usedC leads⟩

/-- Where something is missing the components before lead to its directory. -/
theorem ramfsMissingLoop_some {m : Nat} (missing : ramfsMissingLoop fs cur tok rest = some (d, m)) :
    ∃ pre t more, tok :: rest = pre ++ t :: more ∧ m = more.length + 1 ∧ Leads fs cur pre d ∧
      ramfsFindChild fs d t = none := by
  induction rest generalizing cur tok with
  | nil =>
      rw [ramfsMissingLoop] at missing
      split at missing
      · cases missing
      next absent =>
        obtain ⟨rfl, rfl⟩ := Prod.mk.inj (Option.some.inj missing)
        exact ⟨[], tok, [], rfl, rfl, rfl, absent⟩
  | cons next rest ih =>
      rw [ramfsMissingLoop] at missing
      split at missing
      next child found =>
        split at missing
        next dir =>
          obtain ⟨pre, t, more, split, length, leads, absent⟩ := ih missing
          exact ⟨tok :: pre, t, more, by rw [split]; rfl, length, ⟨child, found, dir, leads⟩, absent⟩
        next => cases missing
      next absent =>
        obtain ⟨rfl, rfl⟩ := Prod.mk.inj (Option.some.inj missing)
        exact ⟨[], tok, next :: rest, rfl, rfl, rfl, absent⟩

/-- Where nothing is, nothing is made. -/
theorem ramfsMissingLoop_none (missing : ramfsMissingLoop fs cur tok rest = none) :
    (ramfsResolveLoop true fs cur tok rest).fs = fs ∧
      ((∃ n, (ramfsResolveLoop true fs cur tok rest).node = .ok n) ∨
        (ramfsResolveLoop true fs cur tok rest).node = .error (-5)) := by
  induction rest generalizing cur tok with
  | nil =>
      rw [ramfsMissingLoop] at missing
      rw [ramfsResolveLoop]
      cases found : ramfsFindChild fs cur tok with
      | some child => exact ⟨rfl, .inl ⟨child, rfl⟩⟩
      | none =>
          rw [found] at missing
          cases missing
  | cons next rest ih =>
      rw [ramfsMissingLoop] at missing
      rw [ramfsResolveLoop]
      cases found : ramfsFindChild fs cur tok with
      | some child =>
          rw [found] at missing
          dsimp only at missing ⊢
          split at missing
          next dir =>
            rw [if_pos dir]
            exact ih missing
          next file =>
            rw [if_neg file]
            exact ⟨rfl, .inr rfl⟩
      | none =>
          rw [found] at missing
          cases missing

/-- Below a directory that is new the walk makes one node for each component but the last, as
long as there are nodes. -/
theorem ramfsResolveLoop_fresh (tok : CString) (rest : List CString) (ok : ListsUsed fs)
    (used : (fs.nodes cur).used = true)
    (empty : (fs.nodes cur).childCount = 0) :
    (rest.length ≤ freeNodes fs ∧ ∃ r p, ramfsResolveLoop true fs cur tok rest = r ∧
        r.node = .error (-2) ∧ r.parent = some p ∧ (r.fs.nodes p).used = true ∧
        (r.fs.nodes p).childCount = 0 ∧ freeNodes r.fs + rest.length = freeNodes fs ∧
        Extends fs r.fs ∧ ListsUsed r.fs ∧ r.fs.filePoolUsed = fs.filePoolUsed) ∨
      (freeNodes fs < rest.length ∧ (ramfsResolveLoop true fs cur tok rest).node = .error (-4) ∧
        Extends fs (ramfsResolveLoop true fs cur tok rest).fs) := by
  have absent : ∀ (fs : Ramfs) cur tok, (fs.nodes cur).childCount = 0 →
      ramfsFindChild fs cur tok = none := by
    intro fs cur tok empty
    rw [ramfsFindChild, RamfsNode.entries, empty]
    rfl
  induction rest generalizing fs cur tok with
  | nil =>
      refine .inl ⟨Nat.zero_le _, _, cur, rfl, ?_⟩
      rw [ramfsResolveLoop, absent fs cur tok empty]
      exact ⟨rfl, rfl, used, empty, Nat.add_zero _, Extends.refl fs, ok, rfl⟩
  | cons next rest ih =>
      rw [ramfsResolveLoop, absent fs cur tok empty]
      dsimp only
      rw [if_pos rfl, List.length_cons]
      rcases ramfsCreateChild_cases .dir ok used tok with
        ⟨full, rc, create⟩ | ⟨-, free, idx, fs₁, create, made⟩
      · have none_ : freeNodes fs = 0 := full.resolve_left (by rw [empty]; decide)
        rw [create]
        exact .inr ⟨by omega, rfl, Extends.refl fs⟩
      · have count := made.free
        rw [create]
        dsimp only
        rw [if_pos made.type_]
        rcases ih next made.ok made.used made.empty with
          ⟨le, r, p, walk, node, parent, usedP, emptyP, left, grown, okR, pool⟩ | ⟨less, node, grown⟩
        · exact .inl ⟨by omega, r, p, walk, node, parent, usedP, emptyP, by omega,
            made.extends_.trans grown, okR, pool.trans made.pool⟩
        · exact .inr ⟨by omega, node, made.extends_.trans grown⟩

/-! ## New paths -/

/-- The path with the given components. -/
def joinPath (ts : List CString) : CString := ts.flatMap fun t => slash :: t

theorem ramfsPathTokens_joinPath (clean : ∀ t ∈ pre, slash ∉ t ∧ t ≠ [] ∧ ramfsCopyName t = t) :
    ramfsPathTokens (joinPath pre) = pre := by
  have parts : components (joinPath pre) = pre := by
    induction pre with
    | nil => rfl
    | cons t pre ih =>
        obtain ⟨word, ne, -⟩ := clean t List.mem_cons_self
        have rest : ∀ c, (joinPath pre).head? = some c → c = slash := by
          intro c head
          cases pre with
          | nil => cases head
          | cons u pre => exact (Option.some.inj head).symm
        show components (slash :: (t ++ joinPath pre)) = t :: pre
        rw [components_slash, components_of_word word ne rest,
          ih fun u mem => clean u (List.mem_cons_of_mem t mem)]
  rw [ramfsPathTokens_eq, parts]
  exact (List.map_congr_left fun t mem => (clean t mem).2.2).trans (List.map_id pre)

theorem ramfsPathTokens_clean (path : CString) (mem : t ∈ ramfsPathTokens path) :
    slash ∉ t ∧ t ≠ [] ∧ ramfsCopyName t = t := by
  refine ⟨?_, ?_, ramfsPathTokens_short mem⟩
  all_goals
    rw [ramfsPathTokens_eq] at mem
    obtain ⟨c, memC, rfl⟩ := List.mem_map.1 mem
    obtain ⟨piece, ne⟩ := List.mem_filter.1 memC
  · exact fun inside => NTux.Lib.Fields.notMem_of_mem_pieces piece (List.mem_of_mem_take inside)
  · intro empty
    rcases List.take_eq_nil_iff.1 empty with zero | empty
    · cases zero
    · exact absurd empty (by simpa using ne)

/-- There is a path that does not exist in `fs` and exists once `fs₁` does. -/
def NewPath (fs fs₁ : Ramfs) : Prop :=
  ∃ path, ramfsOpExists fs path = 0 ∧ ∀ fs', Extends fs₁ fs' → ramfsOpExists fs' path = 1

theorem made_newPath {fs₁ : Ramfs} {type : RamfsNodeType} {path : CString} (ok : ListsUsed fs)
    (tokens : ramfsPathTokens path = pre ++ t :: more) (leads : Leads fs fs.rootIndex pre d)
    (absent : ramfsFindChild fs d t = none) (made : Made fs fs₁ d idx t type) : NewPath fs fs₁ := by
  have clean : ∀ u ∈ pre ++ [t], slash ∉ u ∧ u ≠ [] ∧ ramfsCopyName u = u := by
    intro u mem
    refine ramfsPathTokens_clean path ?_
    rw [tokens]
    rcases List.mem_append.1 mem with old | new
    · exact List.mem_append_left _ old
    · rw [List.mem_singleton.1 new]
      exact List.mem_append_right _ List.mem_cons_self
  have walk : ∀ fs' : Ramfs, fs'.rootIndex = fs.rootIndex → Leads fs' fs.rootIndex pre d →
      (ramfsResolve fs' (joinPath (pre ++ [t])) false).node =
        match ramfsFindChild fs' d t with
        | some child => .ok child
        | none => .error (-2) := by
    intro fs' root leads'
    have absolute : (joinPath (pre ++ [t])).head? = some slash := by
      cases pre with
      | nil => rfl
      | cons u pre => rfl
    rw [ramfsResolve_tokens absolute, ramfsPathTokens_joinPath clean, root,
      leads'.resolve (List.cons_ne_nil _ _)]
    rfl
  refine ⟨joinPath (pre ++ [t]), ?_, fun fs' grown => ?_⟩
  · have node := walk fs rfl leads
    rw [absent] at node
    rw [ramfsOpExists, node]
  · have short : ramfsCopyName t = t :=
      (clean t (List.mem_append_right _ (List.mem_singleton_self t))).2.2
    have usedD := made.extends_.used d (leads.used ok.root)
    have node := walk fs' (grown.root.trans made.extends_.root)
      (leads.extends_ ok (made.extends_.trans grown) ok.root)
    rw [grown.find made.ok usedD (made.found short absent)] at node
    rw [ramfsOpExists, node]

end Walking

/-! ## Creating -/

section Creating

variable {fs : Ramfs} {d m : Nat} {path : CString}

/-- The walk or the last node has failed. -/
def MakeFails (r : RamfsResolution) (type : RamfsNodeType) : Prop :=
  (∃ rc, r.node = .error rc ∧ rc ≠ -2) ∨
    ∃ p rc, r.node = .error (-2) ∧ r.parent = some p ∧
      ramfsCreateChild r.fs p r.leaf type = .error rc

/-- The node is made, in a directory that the walk has come to. -/
structure LeafMade (fs : Ramfs) (r : RamfsResolution) (type : RamfsNodeType) (p idx : Nat)
    (fs₂ : Ramfs) : Prop where
  node : r.node = .error (-2)
  parent : r.parent = some p
  create : ramfsCreateChild r.fs p r.leaf type = .ok (idx, fs₂)
  made : Made r.fs fs₂ p idx r.leaf type
  new : NewPath fs fs₂
  pool : r.fs.filePoolUsed = fs.filePoolUsed

/-- What comes of a path where components are missing. -/
inductive MissingOutcome (fs : Ramfs) (d m : Nat) (r : RamfsResolution) (type : RamfsNodeType) : Prop
  | nothing (full : ramfsMaxChildren ≤ (fs.nodes d).childCount ∨ freeNodes fs = 0)
      (fails : MakeFails r type) (same : r.fs = fs)
  | some_ (room : (fs.nodes d).childCount < ramfsMaxChildren) (few : freeNodes fs ≠ 0 ∧ freeNodes fs < m)
      (fails : MakeFails r type) (new : NewPath fs r.fs)
  | all {p idx : Nat} {fs₂ : Ramfs} (room : (fs.nodes d).childCount < ramfsMaxChildren)
      (enough : m ≤ freeNodes fs) (some_ : 0 < m) (leaf : LeafMade fs r type p idx fs₂)

theorem NewPath.extends_ {fs₁ fs₂ : Ramfs} (new : NewPath fs fs₁) (grown : Extends fs₁ fs₂) :
    NewPath fs fs₂ := by
  obtain ⟨path, absent, found⟩ := new
  exact ⟨path, absent, fun fs' later => found fs' (grown.trans later)⟩

section Missing

variable {pre : List CString} {t : CString}

theorem short_of_tokens {more : List CString} (tokens : ramfsPathTokens path = pre ++ t :: more) :
    ramfsCopyName t = t := by
  refine (ramfsPathTokens_clean path ?_).2.2
  rw [tokens]
  exact List.mem_append_right _ List.mem_cons_self

/-- Only the last component is missing. -/
theorem missingLeaf_outcome (ok : ListsUsed fs) (type : RamfsNodeType)
    (tokens : ramfsPathTokens path = pre ++ [t]) (leads : Leads fs fs.rootIndex pre d)
    (absent : ramfsFindChild fs d t = none) :
    MissingOutcome fs d 1 (ramfsResolveTokens true fs d [t]) type := by
  have walk : ramfsResolveTokens true fs d [t] = ⟨fs, .error (-2), some d, t⟩ := by
    show ramfsResolveLoop true fs d t [] = _
    rw [ramfsResolveLoop, absent, short_of_tokens tokens]
  rw [walk]
  rcases ramfsCreateChild_cases type ok (leads.used ok.root) t with
    ⟨full, rc, create⟩ | ⟨room, free, idx, fs₂, create, made⟩
  · exact .nothing full (.inr ⟨d, rc, rfl, rfl, create⟩) rfl
  · exact .all room (Nat.one_le_iff_ne_zero.2 free) Nat.one_pos
      ⟨rfl, rfl, create, made, made_newPath ok tokens leads absent made, rfl⟩

/-- Directories are missing in front of it. -/
theorem missingDirs_outcome {next : CString} {rest : List CString} (ok : ListsUsed fs)
    (type : RamfsNodeType) (tokens : ramfsPathTokens path = pre ++ t :: next :: rest)
    (leads : Leads fs fs.rootIndex pre d) (absent : ramfsFindChild fs d t = none) :
    MissingOutcome fs d ((next :: rest).length + 1)
      (ramfsResolveTokens true fs d (t :: next :: rest)) type := by
  have walk : ramfsResolveTokens true fs d (t :: next :: rest) =
      ramfsResolveLoop true fs d t (next :: rest) := rfl
  rw [walk, ramfsResolveLoop, absent]
  dsimp only
  rw [if_pos rfl]
  rcases ramfsCreateChild_cases .dir ok (leads.used ok.root) t with
    ⟨full, rc, create⟩ | ⟨room, free, idx, fs₁, create, made⟩
  · rw [create]
    exact .nothing full (.inl ⟨-4, rfl, by decide⟩) rfl
  have new := made_newPath ok tokens leads absent made
  have count := made.free
  rw [create]
  dsimp only
  rw [if_pos made.type_]
  -- behind the first new directory everything is fresh
  rcases ramfsResolveLoop_fresh next rest made.ok made.used made.empty
    with ⟨le, r, p, walk, node, parent, usedP, emptyP, left, grown, okR, pool⟩ |
      ⟨less, node, grown⟩
  · rw [walk]
    rcases ramfsCreateChild_cases type okR usedP r.leaf with
      ⟨full, rc, create⟩ | ⟨-, freeR, idx, fs₂, create, last⟩
    · have none_ : freeNodes r.fs = 0 := full.resolve_left (by rw [emptyP]; decide)
      exact .some_ room ⟨free, by rw [List.length_cons]; omega⟩
        (.inr ⟨p, rc, node, parent, create⟩) (new.extends_ grown)
    · exact .all room (by rw [List.length_cons]; omega) (Nat.succ_pos _) ⟨node, parent, create,
        last, new.extends_ (grown.trans last.extends_), pool.trans made.pool⟩
  · exact .some_ room ⟨free, by rw [List.length_cons]; omega⟩
      (.inl ⟨-4, node, by decide⟩) (new.extends_ grown)

end Missing

/-- The walk beyond the last component that exists. -/
theorem ramfsMissing_outcome (ok : ListsUsed fs) (type : RamfsNodeType)
    (missing : ramfsMissing fs path = some (d, m)) :
    MissingOutcome fs d m (ramfsResolve fs path true) type := by
  unfold ramfsMissing at missing
  split at missing
  · cases missing
  next relative =>
    rw [ramfsResolve_tokens (not_not.1 relative)]
    cases tokens : ramfsPathTokens path with
    | nil =>
        rw [tokens] at missing
        cases missing
    | cons tok rest =>
        rw [tokens] at missing
        obtain ⟨pre, t, more, split, rfl, leads, absent⟩ := ramfsMissingLoop_some missing
        rw [split, leads.resolve (List.cons_ne_nil t more)]
        rw [split] at tokens
        cases more with
        | nil => exact missingLeaf_outcome ok type tokens leads absent
        | cons next rest => exact missingDirs_outcome ok type tokens leads absent

/-- Where nothing is missing nothing is made. -/
theorem ramfsMissing_none (missing : ramfsMissing fs path = none) :
    (ramfsResolve fs path true).fs = fs ∧
      ((∃ n, (ramfsResolve fs path true).node = .ok n) ∨
        ∃ rc, (ramfsResolve fs path true).node = .error rc ∧ rc ≠ -2) := by
  unfold ramfsMissing at missing
  unfold ramfsResolve
  split at missing
  next relative =>
    rw [if_pos relative]
    exact ⟨rfl, .inr ⟨-1, rfl, by decide⟩⟩
  next absolute =>
    rw [if_neg absolute]
    cases tokens : ramfsPathTokens path with
    | nil => exact ⟨rfl, .inl ⟨fs.rootIndex, rfl⟩⟩
    | cons tok rest =>
        rw [tokens] at missing
        obtain ⟨same, found | file⟩ := ramfsMissingLoop_none missing
        · exact ⟨same, .inl found⟩
        · exact ⟨same, .inr ⟨-5, file, by decide⟩⟩

theorem untouched_of_same {result : Int × Ramfs} (same : result.1 ≠ 0 → result.2 = fs) :
    UntouchedOnError fs result := fun error => by
  rw [same error]
  exact ⟨fun _ => rfl, fun _ _ => rfl⟩

theorem touched_of_new {result : Int × Ramfs} (error : result.1 ≠ 0) (new : NewPath fs result.2) :
    ¬ UntouchedOnError fs result := by
  intro untouched
  obtain ⟨path, absent, found⟩ := new
  have same := (untouched error).1 path
  rw [found result.2 (Extends.refl _), absent] at same
  cases same

/-- A failing store leaves everything as it is. -/
theorem ramfsStoreContent_error (fs : Ramfs) (node : Nat) (data : List UInt8)
    (error : (ramfsStoreContent fs node data).1 ≠ 0) : (ramfsStoreContent fs node data).2 = fs := by
  unfold ramfsStoreContent at error ⊢
  dsimp only at error ⊢
  split
  · rfl
  · split
    next empty =>
      rw [if_neg ‹_›, if_pos empty] at error
      exact absurd rfl error
    next some_ =>
      rw [if_neg ‹_›, if_neg some_] at error
      split
      · rfl
      next found =>
        rw [found] at error
        exact absurd rfl error

/-- Storing into a new file fails if the pool has no room for it, and only then. -/
theorem ramfsStoreContent_fresh {node : Nat} (file : (fs.nodes node).type = .file)
    (blank : (fs.nodes node).capacity = 0) (data : List UInt8) :
    (ramfsStoreContent fs node data).1 = 0 ↔ PoolFits fs data.length := by
  unfold ramfsStoreContent PoolFits
  dsimp only
  rw [if_neg (not_not.2 file), blank]
  by_cases empty : data.length = 0
  · rw [if_pos empty]
    exact iff_of_true rfl (.inl empty)
  · rw [if_neg empty, if_neg (by omega), ramfsAllocBytes, if_neg empty]
    by_cases room : ramfsMaxFileBytes < fs.filePoolUsed + data.length
    · rw [if_pos room]
      refine iff_of_false ?_ (by omega)
      show ¬ (-4 : Int) = 0
      decide
    · rw [if_neg room]
      exact iff_of_true rfl (.inr (Nat.le_of_not_lt room))

/-- The condition where components are missing. -/
theorem allOrNone_some (missing : ramfsMissing fs path = some (d, m)) (fits : Prop) :
    AllOrNone fs path fits ↔ ramfsMaxChildren ≤ (fs.nodes d).childCount ∨ freeNodes fs = 0 ∨
      (m ≤ freeNodes fs ∧ fits) := by
  unfold AllOrNone
  rw [missing]
  constructor
  · exact fun all => all d m rfl
  · rintro one _ _ ⟨⟩
    exact one

theorem allOrNone_none (missing : ramfsMissing fs path = none) (fits : Prop) :
    AllOrNone fs path fits := by
  intro d m some_
  rw [missing] at some_
  cases some_

/-- The part of `ramfs_op_mkdir` for a leaf that is missing. -/
theorem ramfsOpMkdir_leaf {uid mode p : Nat} (node : (ramfsResolve fs path true).node = .error (-2))
    (parent : (ramfsResolve fs path true).parent = some p) :
    ramfsOpMkdir uid fs path mode =
      match ramfsCreateChild (ramfsResolve fs path true).fs p (ramfsResolve fs path true).leaf .dir with
      | .ok (created, fs) =>
          (0, ramfsStamp fs created (if mode = 0 then ramfsDefaultDirMode else mode) uid)
      | .error _ => (-2, (ramfsResolve fs path true).fs) := by
  unfold ramfsOpMkdir
  dsimp only
  rw [node, parent]
  rfl

/-- That of `ramfs_op_create_file`. -/
theorem ramfsOpCreateFile_leaf {uid mode p : Nat} {data : List UInt8}
    (node : (ramfsResolve fs path true).node = .error (-2))
    (parent : (ramfsResolve fs path true).parent = some p) :
    ramfsOpCreateFile uid fs path mode data =
      match ramfsCreateChild (ramfsResolve fs path true).fs p (ramfsResolve fs path true).leaf .file with
      | .ok (node, fs) =>
          ramfsStoreContent
            (ramfsStamp fs node (if mode = 0 then ramfsDefaultFileMode else mode) uid) node data
      | .error _ => (-1, (ramfsResolve fs path true).fs) := by
  unfold ramfsOpCreateFile
  dsimp only
  rw [node, parent]
  rfl

theorem ramfsOpMkdir_failed {uid mode : Nat} (fails : MakeFails (ramfsResolve fs path true) .dir) :
    (ramfsOpMkdir uid fs path mode).1 ≠ 0 ∧
      (ramfsOpMkdir uid fs path mode).2 = (ramfsResolve fs path true).fs := by
  rcases fails with ⟨rc, node, ne⟩ | ⟨p, rc, node, parent, create⟩
  · have failed : ramfsOpMkdir uid fs path mode = (-3, (ramfsResolve fs path true).fs) := by
      unfold ramfsOpMkdir
      dsimp only
      rw [node]
      split
      next eq => cases eq
      next eq _ => exact absurd (Except.error.inj eq) ne
      next => rfl
    rw [failed]
    exact ⟨show (-3 : Int) ≠ 0 by decide, rfl⟩
  · rw [ramfsOpMkdir_leaf node parent, create]
    exact ⟨show (-2 : Int) ≠ 0 by decide, rfl⟩

theorem ramfsOpCreateFile_failed {uid mode : Nat} {data : List UInt8}
    (fails : MakeFails (ramfsResolve fs path true) .file) :
    (ramfsOpCreateFile uid fs path mode data).1 ≠ 0 ∧
      (ramfsOpCreateFile uid fs path mode data).2 = (ramfsResolve fs path true).fs := by
  rcases fails with ⟨rc, node, ne⟩ | ⟨p, rc, node, parent, create⟩
  · have failed : ramfsOpCreateFile uid fs path mode data = (-2, (ramfsResolve fs path true).fs) := by
      unfold ramfsOpCreateFile
      dsimp only
      rw [node]
      split
      next eq => cases eq
      next eq _ => exact absurd (Except.error.inj eq) ne
      next => rfl
    rw [failed]
    exact ⟨show (-2 : Int) ≠ 0 by decide, rfl⟩
  · rw [ramfsOpCreateFile_leaf node parent, create]
    exact ⟨show (-1 : Int) ≠ 0 by decide, rfl⟩

/-- An operation that makes what is missing, where what it does with the leaf is known. -/
theorem untouched_iff_of_leaf {type : RamfsNodeType} {result : Int × Ramfs} {fits : Prop}
    (ok : ListsUsed fs) (there : ramfsMissing fs path = none → UntouchedOnError fs result)
    (failed : MakeFails (ramfsResolve fs path true) type →
      result.1 ≠ 0 ∧ result.2 = (ramfsResolve fs path true).fs)
    (leaf : ∀ p idx fs₂, LeafMade fs (ramfsResolve fs path true) type p idx fs₂ →
      (UntouchedOnError fs result ↔ fits)) :
    UntouchedOnError fs result ↔ AllOrNone fs path fits := by
  cases missing : ramfsMissing fs path with
  | none => exact iff_of_true (there missing) (allOrNone_none missing fits)
  | some at_ =>
      obtain ⟨d, m⟩ := at_
      rw [allOrNone_some missing]
      cases ramfsMissing_outcome ok type missing with
      | nothing full fails same =>
          refine iff_of_true (untouched_of_same fun _ => (failed fails).2.trans same) ?_
          rcases full with full | none_
          · exact .inl full
          · exact .inr (.inl none_)
      | some_ room few fails new =>
          refine iff_of_false (touched_of_new (failed fails).1 ?_) ?_
          · rw [(failed fails).2]
            exact new
          · rintro (full | none_ | ⟨enough, -⟩)
            · exact absurd room (Nat.not_lt.2 full)
            · exact few.1 none_
            · exact absurd few.2 (Nat.not_lt.2 enough)
      | @all p idx fs₂ room enough some_ made =>
          rw [leaf p idx fs₂ made]
          constructor
          · exact fun holds => .inr (.inr ⟨enough, holds⟩)
          · rintro (full | none_ | ⟨-, holds⟩)
            · exact absurd room (Nat.not_lt.2 full)
            · exact absurd (some_.trans_le enough) (Nat.not_lt.2 none_.le)
            · exact holds

theorem ramfsOpMkdir_untouched_iff (ok : ListsUsed fs) (uid : Nat) (path : CString) (mode : Nat) :
    UntouchedOnError fs (ramfsOpMkdir uid fs path mode) ↔ AllOrNone fs path True := by
  refine untouched_iff_of_leaf ok (fun missing => ?_) ramfsOpMkdir_failed fun p idx fs₂ leaf => ?_
  · refine untouched_of_same fun _ => ?_
    obtain ⟨same, ⟨n, node⟩ | ⟨rc, node, ne⟩⟩ := ramfsMissing_none missing
    · unfold ramfsOpMkdir
      dsimp only
      rw [node]
      dsimp only
      split
      · exact same
      · exact same
    · exact (ramfsOpMkdir_failed (.inl ⟨rc, node, ne⟩)).2.trans same
  · refine iff_of_true (untouched_of_same fun error => absurd ?_ error) trivial
    rw [ramfsOpMkdir_leaf leaf.node leaf.parent, leaf.create]

/-- What a new file is given fits, or the empty file is left behind. -/
theorem storeFresh_untouched_iff {r : RamfsResolution} {p idx : Nat} {fs₂ : Ramfs}
    (leaf : LeafMade fs r .file p idx fs₂) (mode uid : Nat) (data : List UInt8) :
    UntouchedOnError fs (ramfsStoreContent (ramfsStamp fs₂ idx mode uid) idx data) ↔
      PoolFits fs data.length := by
  have stamped : Extends fs₂ (ramfsStamp fs₂ idx mode uid) := (ramfsStamp_sameShape _ _ _ _).extends_
  have file : ((ramfsStamp fs₂ idx mode uid).nodes idx).type = .file := by
    rw [ramfsStamp, Ramfs.setNode_nodes_self]
    exact leaf.made.type_
  have blank : ((ramfsStamp fs₂ idx mode uid).nodes idx).capacity = 0 := by
    rw [ramfsStamp, Ramfs.setNode_nodes_self]
    exact leaf.made.blank
  have fits : PoolFits (ramfsStamp fs₂ idx mode uid) data.length ↔ PoolFits fs data.length := by
    have used : (ramfsStamp fs₂ idx mode uid).filePoolUsed = fs.filePoolUsed :=
      leaf.made.pool.trans leaf.pool
    rw [PoolFits, PoolFits, used]
  have stores := (ramfsStoreContent_fresh file blank data).trans fits
  by_cases room : PoolFits fs data.length
  · exact iff_of_true (untouched_of_same fun error => absurd (stores.2 room) error) room
  · have error : (ramfsStoreContent (ramfsStamp fs₂ idx mode uid) idx data).1 ≠ 0 :=
      fun zero => room (stores.1 zero)
    refine iff_of_false (touched_of_new error ?_) room
    rw [ramfsStoreContent_error _ _ _ error]
    exact leaf.new.extends_ stamped

theorem ramfsOpCreateFile_untouched_iff (ok : ListsUsed fs) (uid : Nat) (path : CString) (mode : Nat)
    (data : List UInt8) : UntouchedOnError fs (ramfsOpCreateFile uid fs path mode data) ↔
      AllOrNone fs path (PoolFits fs data.length) := by
  refine untouched_iff_of_leaf ok (fun missing => ?_) ramfsOpCreateFile_failed
    fun p idx fs₂ leaf => ?_
  · refine untouched_of_same fun error => ?_
    obtain ⟨same, ⟨n, node⟩ | ⟨rc, node, ne⟩⟩ := ramfsMissing_none missing
    · have stored : ramfsOpCreateFile uid fs path mode data = ramfsStoreContent fs n data := by
        unfold ramfsOpCreateFile
        dsimp only
        rw [node, same]
      rw [stored] at error ⊢
      exact ramfsStoreContent_error fs n data error
    · exact (ramfsOpCreateFile_failed (.inl ⟨rc, node, ne⟩)).2.trans same
  · rw [ramfsOpCreateFile_leaf leaf.node leaf.parent, leaf.create]
    exact storeFresh_untouched_iff leaf _ uid data

end Creating

/-- **A creation that fails leaves the paths and the contents as they were exactly if nothing could
be made, or every missing component and the bytes.** -/
theorem creation_all_or_nothing_iff {fs : Ramfs} (ok : ListsUsed fs) (uid : Nat) (path : CString)
    (mode : Nat) (data : List UInt8) :
    (UntouchedOnError fs (ramfsOpMkdir uid fs path mode) ↔ AllOrNone fs path True) ∧
    (UntouchedOnError fs (ramfsOpCreateFile uid fs path mode data) ↔
      AllOrNone fs path (PoolFits fs data.length)) ∧
    (UntouchedOnError fs (ramfsOpWriteFile uid fs path data) ↔
      AllOrNone fs path (PoolFits fs data.length)) :=
  ⟨ramfsOpMkdir_untouched_iff ok uid path mode, ramfsOpCreateFile_untouched_iff ok uid path mode data,
    ramfsOpCreateFile_untouched_iff ok uid path 0 data⟩

/-- A fresh filesystem has nodes to give. -/
theorem ramfsInit_free : freeNodes ramfsInit ≠ 0 := by
  have mem : 1 ∈ (Finset.range ramfsMaxNodes).filter fun i => (ramfsInit.nodes i).used = false :=
    Finset.mem_filter.2 ⟨Finset.mem_range.2 (by decide), rfl⟩
  have some_ := Finset.card_pos.2 ⟨1, mem⟩
  unfold freeNodes
  exact Nat.ne_of_gt some_

/-- In it `/a` can be made. -/
theorem creation_init : UntouchedOnError ramfsInit (ramfsOpMkdir 0 ramfsInit [slash, 0x61] 0) :=
  (creation_all_or_nothing_iff ramfsInit_inv.listsUsed 0 [slash, 0x61] 0 []).1.2
    ((allOrNone_some (d := 0) (m := 1) rfl True).2
      (.inr (.inr ⟨Nat.one_le_iff_ne_zero.2 ramfsInit_free, trivial⟩)))

/-- A file that is larger than the pool is left behind empty. -/
theorem creation_leaves_file : ¬ ∀ (fs : Ramfs) (path : CString) (data : List UInt8), ListsUsed fs →
    UntouchedOnError fs (ramfsOpCreateFile 0 fs path 0 data) := by
  intro always
  have untouched := always ramfsInit [slash, 0x61] (List.replicate 1048577 0) ramfsInit_inv.listsUsed
  have condition := (allOrNone_some (d := 0) (m := 1) rfl _).1
    ((ramfsOpCreateFile_untouched_iff ramfsInit_inv.listsUsed 0 [slash, 0x61] 0 _).1 untouched)
  rcases condition with full | none_ | ⟨-, empty | room⟩
  · exact absurd full (by decide)
  · exact ramfsInit_free none_
  · rw [List.length_replicate] at empty
    exact absurd empty (by decide)
  · rw [List.length_replicate] at room
    exact absurd room (by decide)

end NTux.Fs
