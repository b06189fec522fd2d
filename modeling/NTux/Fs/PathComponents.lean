import NTux.Ext.PathFiles
import NTux.Fs.Ramfs
import NTux.Lib.Fields
import Mathlib.Data.List.DropRight

/-!
# The components of a path

`ramfs_resolve`, `fat_resolve_path`, `ext2_resolve_path`, `ext4_resolve_path` and
`iso_resolve_path` each take a path apart on their own.  A resolver is a function of the
directory tree it walks in: which node is found under a name in a node, and which nodes are
directories.  It returns the names it has looked up and the node, if there is one.

All five look up the parts of the path between runs of slashes as long as these fit in the
name buffer (`same_components_iff`).  A part that does not fit is cut by `ramfs_path_next`,
and taken for two or more by the other four.
-/

namespace NTux.Fs

open NTux.Lib NTux.Lib.Bytes NTux.Lib.Fields NTux.Ext

/-! ## Splitting -/

/-- The parts of a path between runs of slashes. -/
def components (path : CString) : List CString := (pieces slash path).filter (· ≠ [])

/-- The tokens of `fat_resolve_path`, whose loop is that of `ext2_resolve_path`. -/
def fatPathTokens (path : CString) : List CString := extPathTokens path.length path

/-- `iso_next_token`: the next token and what follows it and the slashes behind it. -/
def isoNextToken (p : CString) : Option (CString × CString) :=
  match p.dropWhile (· == slash) with
  | [] => none
  | s =>
      let token := (s.takeWhile (· != slash)).take (vfsMaxName - 1)
      some (token, (s.drop token.length).dropWhile (· == slash))

/-- The tokens `iso_next_token` yields one after the other. -/
def isoPathTokens : Nat → CString → List CString
  | 0, _ => []
  | fuel + 1, p =>
      match isoNextToken p with
      | none => []
      | some (token, rest) => token :: isoPathTokens fuel rest

/-! ## Resolving -/

/-- A tree of directories, as a resolver sees it. -/
structure DirTree (ν : Type) where
  root : ν
  isDir : ν → Bool
  find : ν → CString → Option ν
  rootDir : isDir root = true

/-- The loop of `ext2_resolve_path`, `ext4_resolve_path` and `iso_resolve_path`: the node
must be a directory before a name is looked up in it. -/
def DirTree.walk {ν : Type} (t : DirTree ν) : ν → List CString → List CString × Option ν
  | cur, [] => ([], some cur)
  | cur, tok :: rest =>
      if t.isDir cur then
        match t.find cur tok with
        | none => ([tok], none)
        | some next => (tok :: (t.walk next rest).1, (t.walk next rest).2)
      else ([], none)

/-- The loop of `ramfs_resolve` and `fat_resolve_path`: a node that is found must be a
directory if there is another token. -/
def DirTree.descend {ν : Type} (t : DirTree ν) : ν → List CString → List CString × Option ν
  | _, [] => ([], none)
  | cur, [tok] => ([tok], t.find cur tok)
  | cur, tok :: next :: rest =>
      match t.find cur tok with
      | none => ([tok], none)
      | some child =>
          if t.isDir child then
            (tok :: (t.descend child (next :: rest)).1, (t.descend child (next :: rest)).2)
          else ([tok], none)

/-- `ramfs_resolve` without `create_dirs`. -/
def ramfsResolvePath {ν : Type} (t : DirTree ν) (path : CString) : List CString × Option ν :=
  if path.head? ≠ some slash then ([], none)
  else if ramfsPathTokens path = [] then ([], some t.root)
  else t.descend t.root (ramfsPathTokens path)

/-- `fat_resolve_path`; two slashes or more are no path of the root. -/
def fatResolvePath {ν : Type} (t : DirTree ν) (path : CString) : List CString × Option ν :=
  if path.head? ≠ some slash then ([], none)
  else if path.tail = [] then ([], some t.root)
  else t.descend t.root (fatPathTokens path)

/-- `ext2_resolve_path` and `ext4_resolve_path`. -/
def extResolvePathIn {ν : Type} (t : DirTree ν) (path : CString) : List CString × Option ν :=
  if path.head? ≠ some slash then ([], none)
  else t.walk t.root (extPathTokens path.length path)

/-- `iso_resolve_path`. -/
def isoResolvePath {ν : Type} (t : DirTree ν) (path : CString) : List CString × Option ν :=
  if path.head? ≠ some slash then ([], none)
  else t.walk t.root (isoPathTokens path.length path)

/-- The filesystems with a resolver of their own. -/
inductive Backend
  | ramfs
  | fat
  | ext2
  | ext4
  | iso
  deriving DecidableEq

/-- The tokens the backend takes a path apart into. -/
def Backend.tokens : Backend → CString → List CString
  | .ramfs => ramfsPathTokens
  | .fat => fatPathTokens
  | .ext2 => fun path => extPathTokens path.length path
  | .ext4 => fun path => extPathTokens path.length path
  | .iso => fun path => isoPathTokens path.length path

/-- The resolver of the backend. -/
def Backend.resolve {ν : Type} : Backend → DirTree ν → CString → List CString × Option ν
  | .ramfs => ramfsResolvePath
  | .fat => fatResolvePath
  | .ext2 => extResolvePathIn
  | .ext4 => extResolvePathIn
  | .iso => isoResolvePath

/-! ## The trees of two of the backends -/

/-- The tree of a RAM filesystem. -/
def ramfsTree (fs : Ramfs) (root : (fs.nodes fs.rootIndex).type = .dir) : DirTree Nat where
  root := fs.rootIndex
  isDir i := (fs.nodes i).type = .dir
  find := ramfsFindChild fs
  rootDir := decide_eq_true root

/-- `ramfs_resolve` resolves a path in the tree of its nodes. -/
theorem ramfsResolve_node (fs : Ramfs) (root : (fs.nodes fs.rootIndex).type = .dir)
    (path : CString) :
    (ramfsResolve fs path false).node.toOption = (ramfsResolvePath (ramfsTree fs root) path).2 := by
  have loop : ∀ rest cur tok, (ramfsResolveLoop false fs cur tok rest).node.toOption =
      ((ramfsTree fs root).descend cur (tok :: rest)).2 := by
    intro rest
    induction rest with
    | nil =>
        intro cur tok
        simp only [ramfsResolveLoop, DirTree.descend, ramfsTree]
        cases ramfsFindChild fs cur tok <;> rfl
    | cons next rest ih =>
        intro cur tok
        simp only [ramfsResolveLoop, DirTree.descend, ramfsTree]
        cases ramfsFindChild fs cur tok with
        | none => rfl
        | some child =>
            by_cases dir : (fs.nodes child).type = .dir
            · simp only [if_pos dir, decide_eq_true dir]
              exact ih child next
            · simp only [if_neg dir, decide_eq_false dir]
              rfl
  unfold ramfsResolve ramfsResolvePath
  split
  · rfl
  · cases tokens : ramfsPathTokens path with
    | nil => rfl
    | cons tok rest => exact loop rest _ tok

/-- The tree of an ext volume whose root is a directory. -/
def extTree (drv : Driver) (fs : ExtFs) (d : Volume) (root : Bytes)
    (dir : rd16 root inMode &&& sIfDir ≠ 0) : DirTree (Nat × Bytes) where
  root := (fs.rootInode, root)
  isDir cur := rd16 cur.2 inMode &&& sIfDir ≠ 0
  find cur tok := (drv.dirFind fs d cur.2 tok).bind fun r =>
    (extReadInode fs d r.1).map fun inode => (r.1, inode)
  rootDir := decide_eq_true dir

/-- `ext2_resolve_path` and `ext4_resolve_path` resolve a path in the tree of the volume. -/
theorem extResolvePath_node (drv : Driver) (fs : ExtFs) (d : Volume) {root : Bytes}
    (read : extReadInode fs d fs.rootInode = some root) (dir : rd16 root inMode &&& sIfDir ≠ 0)
    (path : CString) :
    extResolvePath drv fs d path = (extResolvePathIn (extTree drv fs d root dir) path).2 := by
  have loop : ∀ toks cur, extResolveLoop drv fs d cur toks =
      ((extTree drv fs d root dir).walk cur toks).2 := by
    intro toks
    induction toks with
    | nil => exact fun cur => rfl
    | cons tok rest ih =>
        intro cur
        simp only [extResolveLoop, DirTree.walk, extTree, decide_eq_true_eq]
        by_cases plain : rd16 cur.2 inMode &&& sIfDir = 0
        · rw [if_pos plain, if_neg (not_not_intro plain)]
        · rw [if_neg plain, if_pos plain]
          cases drv.dirFind fs d cur.2 tok with
          | none => rfl
          | some r =>
              dsimp only [Option.bind_some]
              cases extReadInode fs d r.1 with
              | none => rfl
              | some inode => exact ih (r.1, inode)
  unfold extResolvePath extResolvePathIn
  split
  · rfl
  · rw [read]
    exact loop _ _

/-! ## What the tokens are -/

theorem components_slash (p : CString) : components (slash :: p) = components p := by
  unfold components
  rw [pieces, if_pos rfl]
  rfl

theorem components_dropWhile (p : CString) :
    components (p.dropWhile (· == slash)) = components p := by
  induction p with
  | nil => rfl
  | cons c p ih =>
      by_cases eq : c = slash
      · subst eq
        rw [List.dropWhile_cons_of_pos (by simp), ih, components_slash]
      · rw [List.dropWhile_cons_of_neg (by simpa using eq)]

/-- The first component is what is before the first slash. -/
theorem components_of_word {w r : CString} (word : slash ∉ w) (ne : w ≠ [])
    (rest : ∀ c, r.head? = some c → c = slash) : components (w ++ r) = w :: components r := by
  cases r with
  | nil =>
      unfold components
      rw [List.append_nil, pieces_of_notMem word ne]
      simp [ne, pieces]
  | cons c r =>
      obtain rfl := rest c rfl
      rw [components_slash]
      unfold components
      rw [pieces_append_cons word, List.filter_cons_of_pos (by simpa using ne)]

/-- A path has no component, or the first one begins behind its slashes. -/
theorem components_cases (p : CString) :
    (p.dropWhile (· == slash) = [] ∧ components p = []) ∨
      ∃ w r, p.dropWhile (· == slash) = w ++ r ∧ w ≠ [] ∧ components p = w :: components r ∧
        r.length < p.length ∧
        (w ++ r).takeWhile (· != slash) = w ∧ (w ++ r).dropWhile (· != slash) = r := by
  have shorter := (List.dropWhile_sublist (· == slash) (l := p)).length_le
  rw [← components_dropWhile p]
  generalize eq : p.dropWhile (· == slash) = s at shorter ⊢
  cases s with
  | nil => exact .inl ⟨rfl, rfl⟩
  | cons c s =>
      right
      have ne : c ≠ slash := by
        have head := List.head?_dropWhile_not (· == slash) p
        rw [eq] at head
        simpa using head
      refine ⟨(c :: s).takeWhile (· != slash), (c :: s).dropWhile (· != slash),
        List.takeWhile_append_dropWhile.symm, ?_, ?_, ?_, ?_, ?_⟩
      · rw [List.takeWhile_cons_of_pos (by simpa using ne)]
        exact List.cons_ne_nil _ _
      · conv_lhs => rw [← List.takeWhile_append_dropWhile (p := (· != slash)) (l := c :: s)]
        refine components_of_word (fun mem => ?_) ?_ fun x head => ?_
        · exact absurd (List.all_eq_true.1 List.all_takeWhile _ mem) (by simp)
        · rw [List.takeWhile_cons_of_pos (by simpa using ne)]
          exact List.cons_ne_nil _ _
        · have stop := List.head?_dropWhile_not (· != slash) (c :: s)
          rw [head] at stop
          simpa using stop
      · rw [List.dropWhile_cons_of_pos (by simpa using ne)]
        exact Nat.lt_of_lt_of_le (Nat.lt_succ_of_le (List.dropWhile_sublist _).length_le) shorter
      · rw [List.takeWhile_append_dropWhile]
      · rw [List.takeWhile_append_dropWhile]

/-- `ramfs_path_next` cuts what does not fit in the name buffer off. -/
theorem ramfsPathTokens_eq (path : CString) :
    ramfsPathTokens path = (components path).map (List.take (vfsMaxName - 1)) := by
  have go : ∀ fuel p, p.length ≤ fuel →
      ramfsPathTokens.go fuel p = (components p).map (List.take (vfsMaxName - 1)) := by
    intro fuel
    induction fuel with
    | zero =>
        intro p le
        obtain rfl := List.length_eq_zero_iff.1 (Nat.le_zero.1 le)
        rfl
    | succ fuel ih =>
        intro p le
        unfold ramfsPathTokens.go ramfsPathNext
        rcases components_cases p with ⟨skipped, none⟩ | ⟨w, r, skipped, ne, split, less, word, rest⟩
        · rw [skipped, none]
          rfl
        · rw [skipped, split]
          cases eq : w ++ r with
          | nil => exact absurd (List.append_eq_nil_iff.1 eq).1 ne
          | cons c s =>
              dsimp only
              rw [← eq, word, rest, ih r (by omega), List.map_cons]
  exact go _ _ (Nat.le_refl _)

/-- The loop of `ext2_resolve_path` takes the components for the tokens where they fit. -/
theorem extPathTokens_eq (fuel : Nat) (p : CString) (le : p.length ≤ fuel)
    (fit : ∀ c ∈ components p, c.length < vfsMaxName) : extPathTokens fuel p = components p := by
  induction fuel generalizing p with
  | zero =>
      obtain rfl := List.length_eq_zero_iff.1 (Nat.le_zero.1 le)
      rfl
  | succ fuel ih =>
      unfold extPathTokens
      rcases components_cases p with ⟨skipped, none⟩ | ⟨w, r, skipped, ne, split, less, word, rest⟩
      · rw [skipped, none]
      · rw [split, List.forall_mem_cons] at fit
        rw [skipped, split]
        have whole : w.take (vfsMaxName - 1) = w := List.take_of_length_le (by omega)
        cases eq : w ++ r with
        | nil => exact absurd (List.append_eq_nil_iff.1 eq).1 ne
        | cons c s =>
            dsimp only
            rw [← eq, word, whole, List.drop_left, ih r (by omega) fit.2]

/-- Slashes in front make no token. -/
theorem extPathTokens_dropWhile (fuel : Nat) (p : CString) :
    extPathTokens fuel (p.dropWhile (· == slash)) = extPathTokens fuel p := by
  cases fuel with
  | zero => rfl
  | succ fuel =>
      unfold extPathTokens
      rw [List.dropWhile_idempotent]

/-- `iso_next_token` passes the slashes behind a token with it, `ext2_resolve_path` with the
next one; the tokens are the same. -/
theorem isoPathTokens_eq (fuel : Nat) (p : CString) : isoPathTokens fuel p = extPathTokens fuel p := by
  induction fuel generalizing p with
  | zero => rfl
  | succ fuel ih =>
      unfold isoPathTokens extPathTokens isoNextToken
      cases p.dropWhile (· == slash) with
      | nil => rfl
      | cons c s =>
          dsimp only
          rw [ih, extPathTokens_dropWhile]

theorem extPathTokens_short (fuel : Nat) (p : CString) :
    ∀ tok ∈ extPathTokens fuel p, tok.length < vfsMaxName := by
  induction fuel generalizing p with
  | zero => exact fun tok mem => absurd mem List.not_mem_nil
  | succ fuel ih =>
      unfold extPathTokens
      split
      · exact fun tok mem => absurd mem List.not_mem_nil
      · refine List.forall_mem_cons.2 ⟨?_, ih _⟩
        exact Nat.lt_of_le_of_lt (List.length_take_le _ _) (by decide)

/-- **Each backend takes a path apart at the runs of slashes exactly when every part is
shorter than the name buffer.** -/
theorem tokens_eq_iff (b : Backend) (path : CString) :
    b.tokens path = components path ↔ ∀ c ∈ components path, c.length < vfsMaxName := by
  constructor
  · intro eq
    -- every token fits into the buffer, so equal components do
    rw [← eq]
    cases b with
    | ramfs =>
        intro tok mem
        rw [Backend.tokens, ramfsPathTokens_eq] at mem
        obtain ⟨c, -, rfl⟩ := List.mem_map.1 mem
        exact Nat.lt_of_le_of_lt (List.length_take_le _ _) (by decide)
    | fat => exact extPathTokens_short _ _
    | ext2 => exact extPathTokens_short _ _
    | ext4 => exact extPathTokens_short _ _
    | iso =>
        show ∀ tok ∈ isoPathTokens path.length path, tok.length < vfsMaxName
        rw [isoPathTokens_eq]
        exact extPathTokens_short _ _
  · intro fit
    cases b with
    | ramfs =>
        rw [Backend.tokens, ramfsPathTokens_eq]
        conv_rhs => rw [← List.map_id (components path)]
        refine List.map_congr_left fun c mem => List.take_of_length_le ?_
        have := fit c mem
        omega
    | fat => exact extPathTokens_eq _ _ (Nat.le_refl _) fit
    | ext2 => exact extPathTokens_eq _ _ (Nat.le_refl _) fit
    | ext4 => exact extPathTokens_eq _ _ (Nat.le_refl _) fit
    | iso => exact (isoPathTokens_eq _ _).trans (extPathTokens_eq _ _ (Nat.le_refl _) fit)

/-! ## What is looked up -/

/-- The two loops look up the same names, and find the same node unless there is no name. -/
theorem DirTree.descend_eq_walk {ν : Type} (t : DirTree ν) (tok : CString) (rest : List CString)
    {cur : ν} (dir : t.isDir cur = true) : t.descend cur (tok :: rest) = t.walk cur (tok :: rest) := by
  induction rest generalizing cur tok with
  | nil =>
      simp only [DirTree.descend, DirTree.walk, dir, if_true]
      cases t.find cur tok <;> rfl
  | cons next rest ih =>
      unfold DirTree.descend DirTree.walk
      rw [if_pos dir]
      cases t.find cur tok with
      | none => rfl
      | some child =>
          dsimp only
          split
          next childDir => rw [ih next childDir]
          next plain =>
            unfold DirTree.walk
            rw [if_neg plain]

/-- The names that are looked up under an absolute path are those on the walk along the
tokens. -/
theorem resolve_names {ν : Type} (b : Backend) (t : DirTree ν) (path : CString) :
    (b.resolve t (slash :: path)).1 = (t.walk t.root (b.tokens (slash :: path))).1 := by
  have absolute : ¬ (slash :: path).head? ≠ some slash := not_not_intro rfl
  cases b with
  | ramfs =>
      simp only [Backend.resolve, Backend.tokens, ramfsResolvePath, if_neg absolute]
      cases ramfsPathTokens (slash :: path) with
      | nil => rfl
      | cons tok rest =>
          rw [if_neg (List.cons_ne_nil _ _), t.descend_eq_walk tok rest t.rootDir]
  | fat =>
      simp only [Backend.resolve, Backend.tokens, fatResolvePath, if_neg absolute]
      split
      next alone =>
        rw [show path = [] from alone]
        rfl
      next more =>
        cases fatPathTokens (slash :: path) with
        | nil => rfl
        | cons tok rest => rw [t.descend_eq_walk tok rest t.rootDir]
  | ext2 => simp only [Backend.resolve, Backend.tokens, extResolvePathIn, if_neg absolute]
  | ext4 => simp only [Backend.resolve, Backend.tokens, extResolvePathIn, if_neg absolute]
  | iso => simp only [Backend.resolve, Backend.tokens, isoResolvePath, if_neg absolute]

/-- The tree in which every name is found in every node; a node is the names that lead to
it. -/
def everyName : DirTree (List CString) where
  root := []
  isDir _ := true
  find cur tok := some (cur ++ [tok])
  rootDir := rfl

theorem walk_everyName (cur toks : List CString) : (everyName.walk cur toks).1 = toks := by
  induction toks generalizing cur with
  | nil => rfl
  | cons tok toks ih => exact congrArg (tok :: ·) (ih _)

/-- The path means the same in every backend: in every tree each of them looks up the names
on the walk along the components, and where a component does not fit in the name buffer,
each finds nothing. -/
structure SameComponents (path : CString) : Prop where
  names : ∀ (b : Backend) {ν : Type} (t : DirTree ν),
    (b.resolve t path).1 = (t.walk t.root (components path)).1
  tooLong : (∃ c ∈ components path, vfsMaxName ≤ c.length) →
    ∀ (b : Backend) {ν : Type} (t : DirTree ν), (b.resolve t path).2 = none

/-- **An absolute path means the same in every backend exactly when each of its components
is at most 63 bytes long.** -/
theorem same_components_iff (path : CString) :
    SameComponents (slash :: path) ↔ ∀ c ∈ components (slash :: path), c.length < vfsMaxName := by
  constructor
  · intro same
    -- where every name leads on, the names that are looked up are all the tokens
    have names := same.names .ext2 everyName
    rw [resolve_names, show everyName.root = [] from rfl, walk_everyName, walk_everyName] at names
    exact (tokens_eq_iff .ext2 _).1 names
  · intro fit
    refine ⟨fun b ν t => ?_, fun ⟨c, mem, long⟩ => absurd (fit c mem) (Nat.not_lt.2 long)⟩
    rw [resolve_names, (tokens_eq_iff b _).2 fit]

/-- A name of 64 letters: the RAM filesystem looks up the first 63 of them, the others look
up those and then the last one. -/
theorem components_differ : ¬ ∀ path, SameComponents (slash :: path) := by
  intro all
  have names := (all (List.replicate 64 97)).names .ramfs everyName
  exact absurd names (by decide +kernel)

end NTux.Fs
