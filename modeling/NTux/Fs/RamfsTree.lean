import Mathlib.Data.Finset.Card
import NTux.Lib.NamedTree
import NTux.Lib.Runs
import NTux.Fs.Ramfs

/-!
# The RAM filesystem stores a tree

The node table of a RAM filesystem read as a `NamedTree`, the invariant that this
tree is well formed (`RamfsInv`), and what each operation does to it.

Creating, writing and removing keep the invariant for all arguments.  A rename
keeps it, and leaves the filesystem alone when it fails, exactly when it does not
move a node into a full directory or into its own subtree (`RamfsMoveFits`): the
source detaches the node before it looks at the new directory's count, and never
looks for a cycle.
-/

namespace NTux.Fs

open NTux.Lib

/-! ## The entries of a node -/

namespace RamfsNode

@[simp] theorem entries_length (n : RamfsNode) : n.entries.length = n.childCount := by
  simp [entries]

theorem entries_getElem? (n : RamfsNode) (i : Nat) :
    n.entries[i]? = if i < n.childCount then some (n.children i) else none := by
  simp only [entries, List.getElem?_map]
  split
  · next lt => simp [List.getElem?_range lt]
  · next ge => simp [Nat.le_of_not_lt ge]

theorem entries_addChild (n : RamfsNode) (child : Nat) :
    (n.addChild child).entries = n.entries ++ [child] := by
  simp only [entries, addChild, List.range_succ, List.map_append, List.map_cons, List.map_nil,
    Function.update_self]
  congr 1
  refine List.map_congr_left fun i mem => Function.update_of_ne ?_ _ _
  exact (List.mem_range.1 mem).ne

theorem entries_dropChild (n : RamfsNode) {idx : Nat} (lt : idx < n.childCount) :
    (n.dropChild idx).entries = n.entries.eraseIdx idx := by
  refine List.ext_getElem? fun i => ?_
  rw [List.getElem?_eraseIdx, entries_getElem?, entries_getElem?, entries_getElem?]
  by_cases before : i < idx
  · have inside : i < n.childCount - 1 := by omega
    have inside' : i < n.childCount := by omega
    simp [dropChild, before, inside, inside', Nat.not_le.2 before]
  · by_cases inside : i + 1 < n.childCount
    · simp [dropChild, before, inside, Nat.le_of_not_lt before, show i < n.childCount - 1 by omega]
    · simp [dropChild, before, inside, show ¬ i < n.childCount - 1 by omega]

end RamfsNode

/-! ## The tree and its invariant -/

/-- The node table as a tree. -/
def Ramfs.tree (fs : Ramfs) : NamedTree Nat CString where
  root := fs.rootIndex
  used n := (fs.nodes n).used = true
  isDir n := (fs.nodes n).type = .dir
  parent n := (fs.nodes n).parent
  name n := (fs.nodes n).name
  entries n := (fs.nodes n).entries

/-- The nodes form a tree inside the table, and no children array overflows. -/
structure RamfsInv (fs : Ramfs) : Prop where
  tree : fs.tree.WellFormed
  inTable : ∀ n, (fs.nodes n).used = true → n < ramfsMaxNodes
  counts : ∀ n, (fs.nodes n).childCount ≤ ramfsMaxChildren

/-- The two tables only differ in contents, modes and owners. -/
structure RamfsSameShape (fs fs' : Ramfs) : Prop where
  root : fs'.rootIndex = fs.rootIndex
  used : ∀ n, (fs'.nodes n).used = (fs.nodes n).used
  type : ∀ n, (fs'.nodes n).type = (fs.nodes n).type
  parent : ∀ n, (fs'.nodes n).parent = (fs.nodes n).parent
  name : ∀ n, (fs'.nodes n).name = (fs.nodes n).name
  childCount : ∀ n, (fs'.nodes n).childCount = (fs.nodes n).childCount
  children : ∀ n, (fs'.nodes n).children = (fs.nodes n).children

namespace RamfsSameShape

variable {fs fs' fs'' : Ramfs}

theorem refl (fs : Ramfs) : RamfsSameShape fs fs := by
  constructor <;> simp

theorem trans (h : RamfsSameShape fs fs') (h' : RamfsSameShape fs' fs'') :
    RamfsSameShape fs fs'' :=
  ⟨h'.root.trans h.root, fun n => (h'.used n).trans (h.used n),
    fun n => (h'.type n).trans (h.type n), fun n => (h'.parent n).trans (h.parent n),
    fun n => (h'.name n).trans (h.name n), fun n => (h'.childCount n).trans (h.childCount n),
    fun n => (h'.children n).trans (h.children n)⟩

theorem tree_eq (h : RamfsSameShape fs fs') : fs'.tree = fs.tree := by
  simp only [Ramfs.tree, RamfsNode.entries, h.root, h.used, h.type, h.parent, h.name,
    h.childCount, h.children]

theorem inv (h : RamfsSameShape fs fs') (inv : RamfsInv fs) : RamfsInv fs' :=
  ⟨h.tree_eq ▸ inv.tree, fun n used => inv.inTable n (h.used n ▸ used),
    fun n => (h.childCount n).trans_le (inv.counts n)⟩

/-- Storing a node that differs in content, mode or owner only. -/
theorem setNode (fs : Ramfs) (i : Nat) (n : RamfsNode)
    (same : n.used = (fs.nodes i).used ∧ n.type = (fs.nodes i).type ∧
      n.parent = (fs.nodes i).parent ∧ n.name = (fs.nodes i).name ∧
      n.childCount = (fs.nodes i).childCount ∧ n.children = (fs.nodes i).children) :
    RamfsSameShape fs (fs.setNode i n) := by
  obtain ⟨used, type, parent, name, childCount, children⟩ := same
  constructor
  · rfl
  all_goals
    intro j
    rcases eq_or_ne j i with rfl | ne
    · simpa
    · rw [Ramfs.setNode_nodes_of_ne _ _ ne]

end RamfsSameShape

theorem ramfsInit_inv : RamfsInv ramfsInit := by
  have nodes : ∀ n, ramfsInit.nodes n =
      if n = 0 then { RamfsNode.zero with used := true, type := .dir, parent := 0, name := [slash] }
      else .zero := by
    intro n
    by_cases isRoot : n = 0 <;> simp [ramfsInit, Ramfs.setNode, isRoot]
  have onlyRoot : ∀ n, (ramfsInit.nodes n).used = true → n = 0 := by
    intro n used
    by_contra ne
    simp [nodes, ne, RamfsNode.zero] at used
  have noEntries : ∀ n, (ramfsInit.nodes n).entries = [] := by
    intro n
    rw [nodes]
    split <;> rfl
  refine ⟨⟨rfl, rfl, rfl, ?_, ?_, ?_, ?_, ?_⟩, ?_, ?_⟩
  · intro d _ c mem
    simp [Ramfs.tree, noEntries] at mem
  · intro d _
    simp [Ramfs.tree, noEntries]
  · exact fun n used notRoot => absurd (onlyRoot n used) notRoot
  · intro n used
    rw [onlyRoot n used]
    exact ⟨0, rfl⟩
  · intro d _ c mem
    simp [Ramfs.tree, noEntries] at mem
  · intro n used
    rw [onlyRoot n used]
    decide
  · intro n
    rw [nodes]
    split <;> exact Nat.zero_le _

/-! ## Finding, creating and detaching children -/

section Children

variable {fs fs' : Ramfs} {p idx : Nat} {name : CString}

theorem ramfsFindChild_eq_some {child : Nat}
    (found : ramfsFindChild fs p name = some child) :
    child ∈ (fs.nodes p).entries ∧ (fs.nodes child).used = true ∧ (fs.nodes child).name = name := by
  have mem := List.mem_of_find?_eq_some found
  have eq := List.find?_some found
  simp only [Bool.and_eq_true, beq_iff_eq] at eq
  exact ⟨mem, eq.1, eq.2⟩

theorem ramfsFindChild_eq_none (inv : RamfsInv fs) (used : (fs.nodes p).used = true)
    (absent : ramfsFindChild fs p name = none) :
    ∀ c ∈ (fs.nodes p).entries, (fs.nodes c).name ≠ name := by
  intro c mem eq
  have usedC : (fs.nodes c).used = true := (inv.tree.entry p used c mem).1
  simpa [usedC, eq] using List.find?_eq_none.1 absent c mem

theorem ramfsAllocScan_eq_some {fuel i j : Nat} (found : ramfsAllocScan fs fuel i = some j) :
    (fs.nodes j).used = false ∧ j < i + fuel := by
  induction fuel generalizing i with
  | zero => simp [ramfsAllocScan] at found
  | succ fuel ih =>
      rw [ramfsAllocScan] at found
      split at found
      · have := ih found
        exact ⟨this.1, by omega⟩
      · next unused =>
          obtain rfl := Option.some.inj found
          exact ⟨by simpa using unused, by omega⟩

/-- What `ramfs_create_child` does when it succeeds: an unused node is filled in
and put at the end of the parent's children. -/
theorem ramfsCreateChild_ok {type : RamfsNodeType}
    (ok : ramfsCreateChild fs p name type = .ok (idx, fs')) :
    (fs.nodes p).childCount < ramfsMaxChildren ∧ idx < ramfsMaxNodes ∧
      (fs.nodes idx).used = false ∧
      fs' = ((fs.setNode idx { RamfsNode.zero with
          used := true, type := type, parent := p, name := ramfsCopyName name }).setNode p
        (((fs.setNode idx { RamfsNode.zero with
          used := true, type := type, parent := p, name := ramfsCopyName name }).nodes p).addChild
            idx)) := by
  unfold ramfsCreateChild at ok
  split at ok
  · cases ok
  next notFull =>
    cases scan : ramfsAllocNode fs with
    | none => simp [scan] at ok
    | some found =>
        obtain ⟨i, fs₁⟩ := found
        simp only [scan, Except.ok.injEq, Prod.mk.injEq] at ok
        simp only [ramfsAllocNode, Option.map_eq_some_iff, Prod.mk.injEq] at scan
        obtain ⟨i', scan, rfl, rfl⟩ := scan
        obtain ⟨rfl, rfl⟩ := ok
        obtain ⟨unused, lt⟩ := ramfsAllocScan_eq_some scan
        refine ⟨by omega, by omega, unused, ?_⟩
        simp [Ramfs.setNode]

theorem ramfsCreateChild_inv (inv : RamfsInv fs)
    (dir : (fs.nodes p).used = true ∧ (fs.nodes p).type = .dir)
    (absent : ramfsFindChild fs p name = none) (short : ramfsCopyName name = name)
    {type : RamfsNodeType} (ok : ramfsCreateChild fs p name type = .ok (idx, fs')) :
    RamfsInv fs' ∧ (fs'.nodes idx).used = true ∧ (fs'.nodes idx).type = type := by
  obtain ⟨notFull, lt, unused, rfl⟩ := ramfsCreateChild_ok ok
  have apart : idx ≠ p := by
    rintro rfl
    simp [unused] at dir
  have apart' : p ≠ idx := apart.symm
  have fresh := ramfsFindChild_eq_none inv dir.1 absent
  refine ⟨⟨?_, ?_, ?_⟩, ?_, ?_⟩
  · refine inv.tree.addLeaf (n := idx) (p := p) dir (by simp [Ramfs.tree, unused]) ?_ rfl
      ?_ ?_ ?_ ?_ ?_ ?_
    · intro c mem
      simpa [Ramfs.tree, Ramfs.setNode, apart, short] using fresh c mem
    · intro m
      rcases eq_or_ne m p with rfl | ne
      · simp [Ramfs.tree, Ramfs.setNode, apart', RamfsNode.addChild]
      · rcases eq_or_ne m idx with rfl | ne'
        · simp [Ramfs.tree, Ramfs.setNode, ne]
        · simp [Ramfs.tree, Ramfs.setNode, ne, ne']
    · intro m ne
      rcases eq_or_ne m p with rfl | ne'
      · simp [Ramfs.tree, Ramfs.setNode, ne, RamfsNode.addChild]
      · simp [Ramfs.tree, Ramfs.setNode, ne, ne']
    · simp [Ramfs.tree, Ramfs.setNode, apart]
    · simp [Ramfs.tree, Ramfs.setNode, apart, RamfsNode.entries, RamfsNode.zero]
    · simp [Ramfs.tree, Ramfs.setNode, apart', RamfsNode.entries_addChild]
    · intro m ne ne'
      simp [Ramfs.tree, Ramfs.setNode, ne, ne']
  · intro m
    rcases eq_or_ne m idx with rfl | ne
    · exact fun _ => lt
    · rcases eq_or_ne m p with rfl | ne'
      · exact fun _ => inv.inTable m dir.1
      · simpa [Ramfs.setNode, ne, ne'] using inv.inTable m
  · intro m
    rcases eq_or_ne m p with rfl | ne
    · simpa [Ramfs.setNode, apart', RamfsNode.addChild] using Nat.succ_le_of_lt notFull
    · rcases eq_or_ne m idx with rfl | ne'
      · simp [Ramfs.setNode, ne, RamfsNode.zero]
      · simpa [Ramfs.setNode, ne, ne'] using inv.counts m
  · simp [Ramfs.setNode, apart]
  · simp [Ramfs.setNode, apart]

/-- What `ramfs_detach_child` does when the child is listed once. -/
theorem ramfsDetachChild_ok {child : Nat} (ok : ramfsDetachChild fs p child = some fs') :
    ∃ n, fs' = fs.setNode p n ∧ n.entries = (fs.nodes p).entries.erase child ∧
      n.childCount + 1 = (fs.nodes p).childCount ∧ child ∈ (fs.nodes p).entries ∧
      n = { fs.nodes p with children := n.children, childCount := n.childCount } := by
  simp only [ramfsDetachChild, Option.map_eq_some_iff] at ok
  obtain ⟨i, found, rfl⟩ := ok
  obtain ⟨lt, eq, first⟩ := List.findIdx?_eq_some_iff_getElem.1 found
  have ltCount : i < (fs.nodes p).childCount := by simpa using lt
  have mem : child ∈ (fs.nodes p).entries := by
    have here : (fs.nodes p).entries[i] = child := by simpa using eq
    exact here ▸ List.getElem_mem lt
  refine ⟨_, rfl, ?_, ?_, mem, rfl⟩
  · rw [RamfsNode.entries_dropChild _ ltCount, List.erase_eq_eraseIdx]
    rw [show List.idxOf? child (fs.nodes p).entries = some i from found]
  · simp only [RamfsNode.dropChild]
    omega

theorem ramfsDetachChild_isSome {child : Nat} (mem : child ∈ (fs.nodes p).entries) :
    ∃ fs', ramfsDetachChild fs p child = some fs' := by
  cases found : ramfsDetachChild fs p child with
  | some fs' => exact ⟨fs', rfl⟩
  | none =>
      simp only [ramfsDetachChild, Option.map_eq_none_iff, List.findIdx?_eq_none_iff] at found
      simpa using found child mem

end Children

/-! ## Resolving a path -/

/-- What a resolution says about the filesystem it leaves behind. -/
structure RamfsResolved (r : RamfsResolution) : Prop where
  inv : RamfsInv r.fs
  /-- The directory stored through `out_parent` is one. -/
  dir : ∀ p, r.parent = some p → (r.fs.nodes p).used = true ∧ (r.fs.nodes p).type = .dir
  /-- A node that is found is the root or is listed by that directory. -/
  found : ∀ n, r.node = .ok n →
    (n = r.fs.rootIndex ∧ r.parent = some r.fs.rootIndex) ∨
      ∃ p, r.parent = some p ∧ n ∈ (r.fs.nodes p).entries
  /-- A leaf that is missing is missing from that directory. -/
  missing : ∀ e p, r.node = .error e → r.parent = some p →
    e = -2 ∧ ramfsFindChild r.fs p r.leaf = none ∧ ramfsCopyName r.leaf = r.leaf

theorem ramfsCopyName_idem (name : CString) :
    ramfsCopyName (ramfsCopyName name) = ramfsCopyName name := by
  simp [ramfsCopyName, List.take_take]

/-- Every token fits a name buffer. -/
theorem ramfsPathTokens_short {path tok : CString} (mem : tok ∈ ramfsPathTokens path) :
    ramfsCopyName tok = tok := by
  suffices ∀ fuel p, tok ∈ ramfsPathTokens.go fuel p → ramfsCopyName tok = tok from
    this _ _ mem
  intro fuel
  induction fuel with
  | zero => simp [ramfsPathTokens.go]
  | succ fuel ih =>
      intro p mem
      rw [ramfsPathTokens.go] at mem
      cases next : ramfsPathNext p with
      | none => simp [next] at mem
      | some found =>
          obtain ⟨token, rest⟩ := found
          simp only [next, List.mem_cons] at mem
          rcases mem with rfl | mem
          · unfold ramfsPathNext at next
            split at next
            · cases next
            · simp only [Option.some.injEq, Prod.mk.injEq] at next
              rw [← next.1]
              exact ramfsCopyName_idem _
          · exact ih rest mem

theorem ramfsResolveLoop_resolved {createDirs : Bool} {rest : List CString}
    {fs : Ramfs} {cur : Nat} {tok : CString} (inv : RamfsInv fs)
    (dir : (fs.nodes cur).used = true ∧ (fs.nodes cur).type = .dir)
    (short : ∀ t ∈ tok :: rest, ramfsCopyName t = t) :
    RamfsResolved (ramfsResolveLoop createDirs fs cur tok rest) := by
  induction rest generalizing fs cur tok with
  | nil =>
      have shortTok := short tok (by simp)
      rw [ramfsResolveLoop]
      cases child : ramfsFindChild fs cur tok with
      | some c =>
          refine ⟨inv, ?_, ?_, ?_⟩
          · rintro p ⟨⟩
            exact dir
          · rintro n ⟨⟩
            exact Or.inr ⟨cur, rfl, (ramfsFindChild_eq_some child).1⟩
          · rintro e p ⟨⟩
      | none =>
          refine ⟨inv, ?_, ?_, ?_⟩
          · rintro p ⟨⟩
            exact dir
          · rintro n ⟨⟩
          · rintro e p ⟨⟩ ⟨⟩
            exact ⟨rfl, by rwa [shortTok], by rw [shortTok, shortTok]⟩
  | cons next rest ih =>
      have shortRest : ∀ t ∈ next :: rest, ramfsCopyName t = t := fun t mem =>
        short t (List.mem_cons_of_mem _ mem)
      have stop : ∀ fs e, RamfsInv fs → RamfsResolved ⟨fs, .error e, none, []⟩ := by
        intro fs e inv
        refine ⟨inv, ?_, ?_, ?_⟩
        · rintro p ⟨⟩
        · rintro n ⟨⟩
        · rintro e p - ⟨⟩
      rw [ramfsResolveLoop]
      cases child : ramfsFindChild fs cur tok with
      | some c =>
          obtain ⟨mem, usedC, -⟩ := ramfsFindChild_eq_some child
          by_cases dirC : (fs.nodes c).type = .dir
          · simpa [dirC] using ih inv ⟨usedC, dirC⟩ shortRest
          · simpa [dirC] using stop fs (-5) inv
      | none =>
          cases createDirs with
          | false => simpa using stop fs (-3) inv
          | true =>
              cases create : ramfsCreateChild fs cur tok .dir with
              | error e => simpa [create] using stop fs (-4) inv
              | ok made =>
                  obtain ⟨c, fs'⟩ := made
                  obtain ⟨inv', usedC, dirC⟩ :=
                    ramfsCreateChild_inv inv dir child (short tok (by simp)) create
                  simpa [create, dirC] using ih inv' ⟨usedC, dirC⟩ shortRest

theorem ramfsResolve_resolved {fs : Ramfs} (inv : RamfsInv fs) (path : CString)
    (createDirs : Bool) : RamfsResolved (ramfsResolve fs path createDirs) := by
  have rootDir := And.intro inv.tree.root_used inv.tree.root_dir
  rw [ramfsResolve]
  split
  · refine ⟨inv, ?_, ?_, ?_⟩
    · rintro p ⟨⟩
    · rintro n ⟨⟩
    · rintro e p - ⟨⟩
  · cases tokens : ramfsPathTokens path with
    | nil =>
        refine ⟨inv, ?_, ?_, ?_⟩
        · rintro p ⟨⟩
          exact rootDir
        · rintro n ⟨⟩
          exact Or.inl ⟨rfl, rfl⟩
        · rintro e p ⟨⟩
    | cons tok rest =>
        exact ramfsResolveLoop_resolved inv rootDir fun t mem =>
          ramfsPathTokens_short (tokens ▸ mem)

theorem ramfsResolveLoop_fs {rest : List CString} {fs : Ramfs} {cur : Nat} {tok : CString} :
    (ramfsResolveLoop false fs cur tok rest).fs = fs := by
  induction rest generalizing cur tok with
  | nil => rfl
  | cons next rest ih =>
      rw [ramfsResolveLoop]
      cases child : ramfsFindChild fs cur tok with
      | none => rfl
      | some c =>
          by_cases dirC : (fs.nodes c).type = .dir
          · simpa [dirC] using ih
          · simp [dirC]

/-- Without `create_dirs` a resolution changes nothing. -/
@[simp] theorem ramfsResolve_fs (fs : Ramfs) (path : CString) :
    (ramfsResolve fs path false).fs = fs := by
  rw [ramfsResolve]
  split
  · rfl
  · cases ramfsPathTokens path with
    | nil => rfl
    | cons tok rest => exact ramfsResolveLoop_fs

/-! ## Creating and writing -/

theorem ramfsStamp_sameShape (fs : Ramfs) (node mode uid : Nat) :
    RamfsSameShape fs (ramfsStamp fs node mode uid) :=
  RamfsSameShape.setNode _ _ _ ⟨rfl, rfl, rfl, rfl, rfl, rfl⟩

theorem ramfsStoreContent_sameShape (fs : Ramfs) (node : Nat) (data : List UInt8) :
    RamfsSameShape fs (ramfsStoreContent fs node data).2 := by
  have pool : ∀ (fs₁ : Ramfs) (dst : Nat), fs₁.nodes = fs.nodes → fs₁.rootIndex = fs.rootIndex →
      RamfsSameShape fs ((ramfsPoolWrite fs₁ dst data).setNode node
        { fs.nodes node with data := some dst, size := data.length, capacity := data.length }) := by
    intro fs₁ dst nodes root
    have write : RamfsSameShape fs (ramfsPoolWrite fs₁ dst data) := by
      constructor <;> simp [ramfsPoolWrite, nodes, root]
    refine write.trans (RamfsSameShape.setNode _ _ _ ?_)
    simp [ramfsPoolWrite, nodes]
  simp only [ramfsStoreContent]
  by_cases notFile : (fs.nodes node).type ≠ .file
  · rw [if_pos notFile]
    exact RamfsSameShape.refl fs
  by_cases noData : data.length = 0
  · rw [if_neg notFile, if_pos noData]
    exact RamfsSameShape.setNode _ _ _ ⟨rfl, rfl, rfl, rfl, rfl, rfl⟩
  · rw [if_neg notFile, if_neg noData]
    split
    · exact RamfsSameShape.refl fs
    · next dst fs₁ place =>
        split at place
        · simp only [Option.map_eq_some_iff, Prod.mk.injEq] at place
          obtain ⟨_, -, rfl, rfl⟩ := place
          exact pool _ _ rfl rfl
        · simp only [ramfsAllocBytes] at place
          split_ifs at place
          simp only [Option.some.injEq, Prod.mk.injEq] at place
          obtain ⟨rfl, rfl⟩ := place
          exact pool _ _ rfl rfl

theorem ramfsOpMkdir_inv {fs : Ramfs} (inv : RamfsInv fs) (uid : Nat) (path : CString)
    (mode : Nat) : RamfsInv (ramfsOpMkdir uid fs path mode).2 := by
  have resolved := ramfsResolve_resolved inv path true
  simp only [ramfsOpMkdir]
  split
  · split <;> exact resolved.inv
  · next parent node parentEq =>
      obtain ⟨-, absent, short⟩ := resolved.missing _ _ node parentEq
      split
      · next created fs' ok =>
          have made := ramfsCreateChild_inv resolved.inv (resolved.dir _ parentEq) absent short ok
          exact (ramfsStamp_sameShape _ _ _ _).inv made.1
      · exact resolved.inv
  · exact resolved.inv

theorem ramfsOpCreateFile_inv {fs : Ramfs} (inv : RamfsInv fs) (uid : Nat) (path : CString)
    (mode : Nat) (data : List UInt8) : RamfsInv (ramfsOpCreateFile uid fs path mode data).2 := by
  have resolved := ramfsResolve_resolved inv path true
  simp only [ramfsOpCreateFile]
  split
  · exact (ramfsStoreContent_sameShape _ _ _).inv resolved.inv
  · next parent node parentEq =>
      obtain ⟨-, absent, short⟩ := resolved.missing _ _ node parentEq
      split
      · next created fs' ok =>
          have made := ramfsCreateChild_inv resolved.inv (resolved.dir _ parentEq) absent short ok
          exact ((ramfsStamp_sameShape _ _ _ _).trans (ramfsStoreContent_sameShape _ _ _)).inv made.1
      · exact resolved.inv
  · exact resolved.inv

/-! ## Removing -/

/-- What `ramfs_op_remove` does: nothing, or it takes out a node without children
that its parent lists. -/
theorem ramfsOpRemove_cases {fs : Ramfs} (inv : RamfsInv fs) (path : CString) :
    ramfsOpRemove fs path = (-1, fs) ∨
      ∃ node parent fs₁, (ramfsResolve fs path false).node = .ok node ∧
        node ∈ (fs.nodes parent).entries ∧ (fs.nodes parent).used = true ∧
        ((fs.nodes node).type = .dir → (fs.nodes node).childCount = 0) ∧
        ramfsDetachChild fs parent node = some fs₁ ∧
        ramfsOpRemove fs path = (0, fs₁.setNode node .zero) := by
  have resolved := ramfsResolve_resolved inv path false
  rw [ramfsOpRemove]
  split
  · exact Or.inl rfl
  dsimp only
  split
  · next node parent nodeEq parentEq =>
      split
      · exact Or.inl rfl
      next empty =>
        split
        · exact Or.inl rfl
        · next fs₁ detach =>
            obtain ⟨-, -, -, -, mem, -⟩ := ramfsDetachChild_ok detach
            have used := (resolved.dir _ parentEq).1
            rw [ramfsResolve_fs] at used
            exact Or.inr ⟨node, parent, fs₁, nodeEq, mem, used,
              fun dir => by_contra fun ne => empty ⟨dir, ne⟩, detach, rfl⟩
  · exact Or.inl rfl

theorem ramfsOpRemove_inv {fs : Ramfs} (inv : RamfsInv fs) (path : CString) :
    RamfsInv (ramfsOpRemove fs path).2 := by
  rcases ramfsOpRemove_cases inv path with
    refused | ⟨node, parent, fs₁, -, mem, usedP, empty, detach, eq⟩
  · rwa [refused]
  rw [eq]
  obtain ⟨p', rfl, entries, count, -, same⟩ := ramfsDetachChild_ok detach
  obtain ⟨usedN, notRoot, parentEq⟩ := inv.tree.entry parent usedP node mem
  have leaf : (fs.nodes node).entries = [] := by
    refine List.eq_nil_iff_forall_not_mem.2 fun c memC => ?_
    have dir := inv.tree.dir_of_entry usedN memC
    rw [RamfsNode.entries, empty dir] at memC
    simp at memC
  have apart : parent ≠ node := by
    rintro rfl
    rw [leaf] at mem
    simp at mem
  have nodeAt : ∀ m, m ≠ node → m ≠ parent →
      (((fs.setNode parent p').setNode node .zero).nodes m) = fs.nodes m := by
    intro m ne ne'
    rw [Ramfs.setNode_nodes_of_ne _ _ ne, Ramfs.setNode_nodes_of_ne _ _ ne']
  have parentAt : ((fs.setNode parent p').setNode node .zero).nodes parent = p' := by
    rw [Ramfs.setNode_nodes_of_ne _ _ apart, Ramfs.setNode_nodes_self]
  have parentEq' : (fs.nodes node).parent = parent := parentEq
  refine ⟨?_, ?_, ?_⟩
  · refine inv.tree.removeLeaf (n := node) usedN notRoot leaf rfl ?_ ?_ ?_ ?_
    · intro m
      rcases eq_or_ne m node with rfl | ne
      · simp [Ramfs.tree, RamfsNode.zero]
      rcases eq_or_ne m parent with rfl | ne'
      · simp only [Ramfs.tree, parentAt, ne_eq, ne, not_false_eq_true, true_and]
        rw [same]
      · simp only [Ramfs.tree, nodeAt m ne ne', ne_eq, ne, not_false_eq_true, true_and]
    · intro m ne
      rcases eq_or_ne m parent with rfl | ne'
      · simp only [Ramfs.tree, parentAt]
        rw [same]
        simp
      · simp only [Ramfs.tree, nodeAt m ne ne', and_self]
    · simp only [Ramfs.tree, parentEq', parentAt, entries]
    · intro m ne ne'
      simp only [Ramfs.tree, parentEq'] at ne' ⊢
      rw [nodeAt m ne ne']
  · intro m
    rcases eq_or_ne m node with rfl | ne
    · simp [RamfsNode.zero]
    rcases eq_or_ne m parent with rfl | ne'
    · exact fun _ => inv.inTable m usedP
    · rw [nodeAt m ne ne']
      exact inv.inTable m
  · intro m
    rcases eq_or_ne m node with rfl | ne
    · simp [RamfsNode.zero]
    rcases eq_or_ne m parent with rfl | ne'
    · rw [parentAt]
      have := inv.counts m
      omega
    · rw [nodeAt m ne ne']
      exact inv.counts m

end NTux.Fs
