import NTux.Fs.RamfsTree

/-!
# Renaming in the RAM filesystem, and whole runs

`ramfs_op_rename` moves a node in two steps, out of the old directory and into
the new one, with a check that can fail between them and no check that the new
directory lies outside the moved subtree.  `ramfsOpRename_cases` lists what the
operation can do; `RamfsMoveFits` is the condition under which it does what a
rename should, and `ramfsRename_keeps_iff` that the condition is exact.

A run is any sequence of the five operations that change the tree.
-/

namespace NTux.Fs

open NTux.Lib

/-- Both paths of a rename resolve as the source needs them to: the old one to a
node listed by `oldParent`, the new one to a name missing from `newParent`. -/
structure RamfsRenames (fs : Ramfs) (oldPath newPath : CString) (node oldParent newParent : Nat) :
    Prop where
  node : (ramfsResolve fs oldPath false).node = .ok node
  oldParent : (ramfsResolve fs oldPath false).parent = some oldParent
  newParent : (ramfsResolve fs newPath false).parent = some newParent
  missing : (ramfsResolve fs newPath false).node = .error (-2)

/-- The move a rename asks for fits: it does not go into a full directory, nor
into the moved node's own subtree.  (Nothing is asked of a rename inside one
directory, or of one that names the root.) -/
def RamfsMoveFits (fs : Ramfs) (oldPath newPath : CString) : Prop :=
  ∀ node oldParent newParent, RamfsRenames fs oldPath newPath node oldParent newParent →
    node ≠ fs.rootIndex → oldParent ≠ newParent →
    (fs.nodes newParent).childCount < ramfsMaxChildren ∧ ¬ fs.tree.Above node newParent

/-- The table after a move that went through. -/
def ramfsMoved (fs fs₁ : Ramfs) (node newParent : Nat) (leaf : CString) : Ramfs :=
  let fs₂ := fs₁.setNode newParent ((fs.nodes newParent).addChild node)
  fs₂.setNode node { fs₂.nodes node with parent := newParent, name := ramfsCopyName leaf }

/-- What `ramfs_op_rename` can do: refuse; rename in place; detach the node and
give up, the new directory being full; or move it. -/
theorem ramfsOpRename_cases {fs : Ramfs} (inv : RamfsInv fs) (oldPath newPath : CString) :
    ramfsOpRename fs oldPath newPath = (-1, fs) ∨
    ∃ node oldParent newParent, RamfsRenames fs oldPath newPath node oldParent newParent ∧
      let leaf := (ramfsResolve fs newPath false).leaf
      (oldParent = newParent ∧ ramfsOpRename fs oldPath newPath =
          (0, fs.setNode node { fs.nodes node with name := ramfsCopyName leaf })) ∨
      ∃ fs₁, oldParent ≠ newParent ∧ ramfsDetachChild fs oldParent node = some fs₁ ∧
        ((ramfsMaxChildren ≤ (fs.nodes newParent).childCount ∧
            ramfsOpRename fs oldPath newPath = (-1, fs₁)) ∨
          ((fs.nodes newParent).childCount < ramfsMaxChildren ∧
            ramfsOpRename fs oldPath newPath =
              (0, ramfsMoved fs fs₁ node newParent leaf))) := by
  have resolved := ramfsResolve_resolved inv newPath false
  rw [ramfsOpRename]
  split
  · exact Or.inl rfl
  split
  · exact Or.inl rfl
  dsimp only
  split
  · next node oldParent newParent e nodeEq oldEq newEq missEq =>
      obtain ⟨rfl, -, -⟩ := resolved.missing _ _ missEq newEq
      have renames : RamfsRenames fs oldPath newPath node oldParent newParent :=
        ⟨nodeEq, oldEq, newEq, missEq⟩
      by_cases same : oldParent = newParent
      · exact Or.inr ⟨node, oldParent, newParent, renames, Or.inl ⟨same, by simp [same]⟩⟩
      cases detach : ramfsDetachChild fs oldParent node with
      | none => exact Or.inl (by simp [same])
      | some fs₁ =>
          refine Or.inr ⟨node, oldParent, newParent, renames, Or.inr ⟨fs₁, same, detach, ?_⟩⟩
          obtain ⟨p', rfl, -⟩ := ramfsDetachChild_ok detach
          have newAt : (fs.setNode oldParent p').nodes newParent = fs.nodes newParent :=
            Ramfs.setNode_nodes_of_ne _ _ (Ne.symm same)
          by_cases full : ramfsMaxChildren ≤ (fs.nodes newParent).childCount
          · exact Or.inl ⟨full, by simp [same, newAt, full]⟩
          · refine Or.inr ⟨Nat.lt_of_not_le full, ?_⟩
            simp [same, newAt, full, ramfsMoved]
  · exact Or.inl rfl

/-- A path of one byte is the root's. -/
theorem ramfsResolve_root {fs : Ramfs} {path : CString} (absolute : path.head? = some slash)
    (short : path.length = 1) (createDirs : Bool) :
    ramfsResolve fs path createDirs = ⟨fs, .ok fs.rootIndex, some fs.rootIndex, []⟩ := by
  obtain ⟨c, rfl⟩ := List.length_eq_one_iff.1 short
  obtain rfl : c = slash := by simpa using absolute
  rfl

/-- A rename whose paths resolve, of a node other than the root, is not refused. -/
theorem RamfsRenames.accepted {fs : Ramfs} {oldPath newPath : CString}
    {node oldParent newParent : Nat}
    (renames : RamfsRenames fs oldPath newPath node oldParent newParent)
    (notRoot : node ≠ fs.rootIndex) :
    (oldPath.head? = some slash ∧ newPath.head? = some slash) ∧
      ¬ (oldPath.length = 1 ∨ newPath.length = 1) := by
  have absolute : oldPath.head? = some slash := by
    by_contra relative
    have nodeEq := renames.node
    simp [ramfsResolve, relative] at nodeEq
  have absolute' : newPath.head? = some slash := by
    by_contra relative
    have parentEq := renames.newParent
    simp [ramfsResolve, relative] at parentEq
  refine ⟨⟨absolute, absolute'⟩, ?_⟩
  rintro (short | short)
  · have nodeEq := renames.node
    rw [ramfsResolve_root absolute short] at nodeEq
    exact notRoot (Except.ok.inj nodeEq).symm
  · have missing := renames.missing
    rw [ramfsResolve_root absolute' short] at missing
    cases missing

section Move

variable {fs fs₁ : Ramfs} {oldPath newPath : CString} {node oldParent newParent : Nat}

/-- The old parent of a renamed node lists it, unless it is the root. -/
theorem RamfsRenames.listed (inv : RamfsInv fs)
    (renames : RamfsRenames fs oldPath newPath node oldParent newParent) :
    (fs.nodes oldParent).used = true ∧ (node = fs.rootIndex ∨ node ∈ (fs.nodes oldParent).entries) := by
  have resolved := ramfsResolve_resolved inv oldPath false
  have dir := (resolved.dir _ renames.oldParent).1
  have found := resolved.found _ renames.node
  rw [renames.oldParent, ramfsResolve_fs] at found
  rw [ramfsResolve_fs] at dir
  refine ⟨dir, ?_⟩
  rcases found with ⟨isRoot, -⟩ | ⟨p, parentEq, mem⟩
  · exact Or.inl isRoot
  · obtain rfl := Option.some.inj parentEq
    exact Or.inr mem

/-- The new parent is a directory in which the new name is missing. -/
theorem RamfsRenames.target (inv : RamfsInv fs)
    (renames : RamfsRenames fs oldPath newPath node oldParent newParent) :
    ((fs.nodes newParent).used = true ∧ (fs.nodes newParent).type = .dir) ∧
      ∀ c ∈ (fs.nodes newParent).entries,
        (fs.nodes c).name ≠ ramfsCopyName (ramfsResolve fs newPath false).leaf := by
  have resolved := ramfsResolve_resolved inv newPath false
  have dir := resolved.dir _ renames.newParent
  obtain ⟨-, absent, short⟩ := resolved.missing _ _ renames.missing renames.newParent
  rw [ramfsResolve_fs] at dir absent
  rw [short]
  exact ⟨dir, ramfsFindChild_eq_none inv dir.1 absent⟩

/-- Renaming in place keeps the tree. -/
theorem ramfsRenameInPlace_inv (inv : RamfsInv fs)
    (renames : RamfsRenames fs oldPath newPath node oldParent newParent)
    (same : oldParent = newParent) :
    RamfsInv (fs.setNode node { fs.nodes node with
      name := ramfsCopyName (ramfsResolve fs newPath false).leaf }) := by
  subst same
  obtain ⟨usedP, listed⟩ := renames.listed inv
  have newName := (renames.target inv).2
  have at_ : ∀ m, ((fs.setNode node { fs.nodes node with
      name := ramfsCopyName (ramfsResolve fs newPath false).leaf }).nodes m) =
      if m = node then { fs.nodes node with
        name := ramfsCopyName (ramfsResolve fs newPath false).leaf } else fs.nodes m := by
    intro m
    split
    · next isNode => rw [isNode, Ramfs.setNode_nodes_self]
    · next ne => rw [Ramfs.setNode_nodes_of_ne _ _ ne]
  refine ⟨inv.tree.rename (n := node) ?_ rfl ?_ ?_ ?_, ?_, ?_⟩
  · intro notRoot c mem
    have parentEq := (inv.tree.entry _ usedP node (listed.resolve_left notRoot)).2.2
    rw [parentEq] at mem
    simpa [Ramfs.tree] using newName c mem
  · intro m
    by_cases isNode : m = node <;> simp [Ramfs.tree, at_, isNode]
  · intro m
    by_cases isNode : m = node <;> simp [Ramfs.tree, at_, isNode, RamfsNode.entries]
  · intro m ne
    simp [Ramfs.tree, at_, ne]
  · intro m
    by_cases isNode : m = node
    · simpa [at_, isNode] using inv.inTable node
    · simpa [at_, isNode] using inv.inTable m
  · intro m
    by_cases isNode : m = node
    · simpa [at_, isNode] using inv.counts node
    · simpa [at_, isNode] using inv.counts m

/-- The parent pointers after a move: only the moved node's changes. -/
theorem ramfsMoved_parent (detach : ramfsDetachChild fs oldParent node = some fs₁)
    (newParent : Nat) (leaf : CString) (m : Nat) :
    ((ramfsMoved fs fs₁ node newParent leaf).nodes m).parent =
      if m = node then newParent else (fs.nodes m).parent := by
  obtain ⟨p', rfl, -, -, -, same⟩ := ramfsDetachChild_ok detach
  have parentEq : p'.parent = (fs.nodes oldParent).parent := by rw [same]
  rcases eq_or_ne m node with rfl | ne
  · simp [ramfsMoved]
  rcases eq_or_ne m newParent with rfl | ne'
  · simp [ramfsMoved, Ramfs.setNode, ne, RamfsNode.addChild]
  rcases eq_or_ne m oldParent with rfl | ne''
  · simp [ramfsMoved, Ramfs.setNode, ne, ne', parentEq]
  · simp [ramfsMoved, Ramfs.setNode, ne, ne', ne'']

/-- A move changes no node's use or type. -/
theorem ramfsMoved_used (detach : ramfsDetachChild fs oldParent node = some fs₁)
    (newParent : Nat) (leaf : CString) (m : Nat) :
    ((ramfsMoved fs fs₁ node newParent leaf).nodes m).used = (fs.nodes m).used ∧
      ((ramfsMoved fs fs₁ node newParent leaf).nodes m).type = (fs.nodes m).type := by
  obtain ⟨p', rfl, -, -, -, same⟩ := ramfsDetachChild_ok detach
  have sameOld : p'.used = (fs.nodes oldParent).used ∧ p'.type = (fs.nodes oldParent).type := by
    rw [same]
    exact ⟨rfl, rfl⟩
  have detached : ∀ m, ((fs.setNode oldParent p').nodes m).used = (fs.nodes m).used ∧
      ((fs.setNode oldParent p').nodes m).type = (fs.nodes m).type := by
    intro m
    rcases eq_or_ne m oldParent with rfl | ne
    · rwa [Ramfs.setNode_nodes_self]
    · rw [Ramfs.setNode_nodes_of_ne _ _ ne]
      exact ⟨rfl, rfl⟩
  have attached : ∀ m, (((fs.setNode oldParent p').setNode newParent
      ((fs.nodes newParent).addChild node)).nodes m).used = (fs.nodes m).used ∧
      (((fs.setNode oldParent p').setNode newParent
      ((fs.nodes newParent).addChild node)).nodes m).type = (fs.nodes m).type := by
    intro m
    rcases eq_or_ne m newParent with rfl | ne
    · rw [Ramfs.setNode_nodes_self]
      exact ⟨rfl, rfl⟩
    · rw [Ramfs.setNode_nodes_of_ne _ _ ne]
      exact detached m
  simp only [ramfsMoved]
  rcases eq_or_ne m node with rfl | ne
  · rw [Ramfs.setNode_nodes_self]
    exact attached m
  · rw [Ramfs.setNode_nodes_of_ne _ _ ne]
    exact attached m

/-- A move into a directory with room, outside the moved subtree, keeps the tree. -/
theorem ramfsMoved_inv (inv : RamfsInv fs)
    (renames : RamfsRenames fs oldPath newPath node oldParent newParent)
    (elsewhere : oldParent ≠ newParent)
    (detach : ramfsDetachChild fs oldParent node = some fs₁)
    (room : (fs.nodes newParent).childCount < ramfsMaxChildren)
    (outside : ¬ fs.tree.Above node newParent) :
    RamfsInv (ramfsMoved fs fs₁ node newParent (ramfsResolve fs newPath false).leaf) := by
  have parents := ramfsMoved_parent detach newParent
    (ramfsResolve fs newPath false).leaf
  have usedType := ramfsMoved_used detach newParent
    (ramfsResolve fs newPath false).leaf
  obtain ⟨p', rfl, entries, count, mem, same⟩ := ramfsDetachChild_ok detach
  obtain ⟨usedP, -⟩ := renames.listed inv
  obtain ⟨dir, newName⟩ := renames.target inv
  obtain ⟨usedN, notRoot, parentEq⟩ := inv.tree.entry _ usedP node mem
  have parentEq' : (fs.nodes node).parent = oldParent := parentEq
  have apart : newParent ≠ node := by
    rintro rfl
    exact outside (NamedTree.Above.refl _ _)
  have apart' : oldParent ≠ node := by
    rintro rfl
    -- a node that is its own parent never reaches the root
    obtain ⟨k, path⟩ := inv.tree.rooted _ usedP
    rw [Function.iterate_fixed parentEq] at path
    exact notRoot path
  -- the table after the move, one entry at a time
  have atNode : (ramfsMoved fs (fs.setNode oldParent p') node newParent
      (ramfsResolve fs newPath false).leaf).nodes node = { fs.nodes node with
        parent := newParent, name := ramfsCopyName (ramfsResolve fs newPath false).leaf } := by
    simp [ramfsMoved, Ramfs.setNode, apart.symm, apart'.symm]
  have atNew : (ramfsMoved fs (fs.setNode oldParent p') node newParent
      (ramfsResolve fs newPath false).leaf).nodes newParent =
        (fs.nodes newParent).addChild node := by
    simp [ramfsMoved, Ramfs.setNode, apart]
  have atOld : (ramfsMoved fs (fs.setNode oldParent p') node newParent
      (ramfsResolve fs newPath false).leaf).nodes oldParent = p' := by
    simp [ramfsMoved, Ramfs.setNode, apart', elsewhere]
  have atOther : ∀ m, m ≠ node → m ≠ newParent → m ≠ oldParent →
      (ramfsMoved fs (fs.setNode oldParent p') node newParent
        (ramfsResolve fs newPath false).leaf).nodes m = fs.nodes m := by
    intro m ne ne' ne''
    simp [ramfsMoved, Ramfs.setNode, ne, ne', ne'']
  have rootAfter : (ramfsMoved fs (fs.setNode oldParent p') node newParent
      (ramfsResolve fs newPath false).leaf).rootIndex = fs.rootIndex := rfl
  generalize ramfsMoved fs (fs.setNode oldParent p') node newParent
    (ramfsResolve fs newPath false).leaf = after at *
  refine ⟨?_, ?_, ?_⟩
  · refine inv.tree.move (n := node) (q := newParent) usedN notRoot dir outside
      (by rwa [parentEq]) ?_ rootAfter ?_ ?_ ?_ ?_ ?_ ?_ ?_
    · intro c memC
      simpa [Ramfs.tree, atNode] using newName c memC
    · exact fun m => by simp [Ramfs.tree, (usedType m).1]
    · exact fun m => by simp [Ramfs.tree, (usedType m).2]
    · intro m ne
      refine ⟨by simp [Ramfs.tree, parents, ne], ?_⟩
      rcases eq_or_ne m newParent with rfl | ne'
      · simp [Ramfs.tree, atNew, RamfsNode.addChild]
      rcases eq_or_ne m oldParent with rfl | ne''
      · simp only [Ramfs.tree, atOld]
        rw [same]
      · simp [Ramfs.tree, atOther m ne ne' ne'']
    · simp [Ramfs.tree, atNode]
    · rw [parentEq]
      simp [Ramfs.tree, atOld, entries]
    · simp [Ramfs.tree, atNew, RamfsNode.entries_addChild]
    · intro m ne ne'
      rw [parentEq] at ne
      rcases eq_or_ne m node with rfl | ne''
      · simp [Ramfs.tree, atNode, RamfsNode.entries]
      · simp [Ramfs.tree, atOther m ne'' ne' ne]
  · intro m
    rw [(usedType m).1]
    exact inv.inTable m
  · intro m
    rcases eq_or_ne m node with rfl | ne
    · simpa [atNode] using inv.counts m
    rcases eq_or_ne m newParent with rfl | ne'
    · simpa [atNew, RamfsNode.addChild] using Nat.succ_le_of_lt room
    rcases eq_or_ne m oldParent with rfl | ne''
    · rw [atOld]
      have := inv.counts m
      omega
    · rw [atOther m ne ne' ne'']
      exact inv.counts m

end Move

/-! ## The claim about a tree, and the exact condition -/

/-- The nodes of the table form one tree: every used node other than the root
occurs exactly once in exactly one directory's children array, that directory is
its parent, its ancestors lead to the root, names in a directory are distinct and
every `child_count` counts the entries. -/
structure RamfsTree (fs : Ramfs) : Prop where
  occursOnce : ∀ n, (fs.nodes n).used = true → n ≠ fs.rootIndex →
    ∃! at_ : Nat × Nat, (fs.nodes at_.1).used = true ∧ (fs.nodes at_.1).type = .dir ∧
      at_.2 < (fs.nodes at_.1).childCount ∧ (fs.nodes at_.1).children at_.2 = n
  parent : ∀ d, (fs.nodes d).used = true → ∀ i < (fs.nodes d).childCount,
    (fs.nodes ((fs.nodes d).children i)).used = true ∧
      (fs.nodes ((fs.nodes d).children i)).parent = d
  rooted : ∀ n, (fs.nodes n).used = true →
    ∃ k, (fun m => (fs.nodes m).parent)^[k] n = fs.rootIndex
  names : ∀ d, (fs.nodes d).used = true → ∀ i < (fs.nodes d).childCount,
    ∀ j < (fs.nodes d).childCount, (fs.nodes ((fs.nodes d).children i)).name =
      (fs.nodes ((fs.nodes d).children j)).name → i = j
  counts : ∀ d, (fs.nodes d).used = true → (fs.nodes d).childCount =
    ((Finset.range ramfsMaxNodes).filter fun n =>
      (fs.nodes n).used = true ∧ n ≠ fs.rootIndex ∧ (fs.nodes n).parent = d).card

theorem RamfsNode.children_mem_entries (n : RamfsNode) {i : Nat} (lt : i < n.childCount) :
    n.children i ∈ n.entries :=
  List.mem_map.2 ⟨i, List.mem_range.2 lt, rfl⟩

theorem RamfsNode.children_injective (n : RamfsNode) (distinct : n.entries.Nodup) {i j : Nat}
    (lt : i < n.childCount) (lt' : j < n.childCount) (eq : n.children i = n.children j) :
    i = j :=
  List.inj_on_of_nodup_map distinct (List.mem_range.2 lt) (List.mem_range.2 lt') eq

theorem RamfsInv.ramfsTree {fs : Ramfs} (inv : RamfsInv fs) : RamfsTree fs := by
  constructor
  · intro n used notRoot
    obtain ⟨usedP, dirP, mem⟩ := inv.tree.listed n used notRoot
    obtain ⟨i, lt, eq⟩ := List.mem_map.1 mem
    rw [List.mem_range] at lt
    refine ⟨((fs.nodes n).parent, i), ⟨usedP, dirP, lt, eq⟩, ?_⟩
    rintro ⟨d, j⟩ ⟨usedD, -, lt', eq'⟩
    have memD : n ∈ (fs.nodes d).entries := eq' ▸ RamfsNode.children_mem_entries _ lt'
    obtain rfl : (fs.nodes n).parent = d := (inv.tree.entry d usedD n memD).2.2
    have same := RamfsNode.children_injective _ (inv.tree.nodup _ usedD) lt' lt (eq'.trans eq.symm)
    exact Prod.ext rfl same
  · intro d usedD i lt
    obtain ⟨used, -, parent⟩ :=
      inv.tree.entry d usedD _ (RamfsNode.children_mem_entries (fs.nodes d) lt)
    exact ⟨used, parent⟩
  · exact inv.tree.rooted
  · intro d usedD i lt j lt' eq
    exact RamfsNode.children_injective _ (inv.tree.nodup d usedD) lt lt'
      (inv.tree.names d usedD _ (RamfsNode.children_mem_entries (fs.nodes d) lt) _
        (RamfsNode.children_mem_entries (fs.nodes d) lt') eq)
  · intro d usedD
    have distinct : (fs.nodes d).entries.Nodup := inv.tree.nodup d usedD
    rw [← RamfsNode.entries_length, ← List.toFinset_card_of_nodup distinct]
    refine congrArg Finset.card ?_
    ext c
    simp only [List.mem_toFinset, Finset.mem_filter, Finset.mem_range]
    constructor
    · intro mem
      obtain ⟨used, notRoot, parent⟩ := inv.tree.entry d usedD c mem
      exact ⟨inv.inTable c used, used, notRoot, parent⟩
    · rintro ⟨-, used, notRoot, rfl⟩
      exact (inv.tree.listed c used notRoot).2.2

/-- A rename that fits keeps the tree, and changes nothing when it fails. -/
theorem ramfsOpRename_keeps {fs : Ramfs} {oldPath newPath : CString} (inv : RamfsInv fs)
    (fits : RamfsMoveFits fs oldPath newPath) :
    RamfsInv (ramfsOpRename fs oldPath newPath).2 ∧
      ((ramfsOpRename fs oldPath newPath).1 ≠ 0 → (ramfsOpRename fs oldPath newPath).2 = fs) := by
  rcases ramfsOpRename_cases inv oldPath newPath with refused |
    ⟨node, oldParent, newParent, renames, ⟨same, eq⟩ | ⟨fs₁, elsewhere, detach, move⟩⟩
  · rw [refused]
    exact ⟨inv, fun _ => rfl⟩
  · rw [eq]
    exact ⟨ramfsRenameInPlace_inv inv renames same, fun failed => absurd rfl failed⟩
  · obtain ⟨-, -, -, -, mem, -⟩ := ramfsDetachChild_ok detach
    have notRoot : node ≠ fs.rootIndex := (inv.tree.entry _ (renames.listed inv).1 node mem).2.1
    obtain ⟨room, outside⟩ := fits _ _ _ renames notRoot elsewhere
    rcases move with ⟨full, -⟩ | ⟨-, eq⟩
    · omega
    · rw [eq]
      exact ⟨ramfsMoved_inv inv renames elsewhere detach room outside,
        fun failed => absurd rfl failed⟩

/-- **The condition is exact**: a rename that does not fit either cuts its node off
from the root or fails after having taken it out of its directory. -/
theorem ramfsRename_keeps_iff {fs : Ramfs} (inv : RamfsInv fs) (oldPath newPath : CString) :
    RamfsTree (ramfsOpRename fs oldPath newPath).2 ∧
        ((ramfsOpRename fs oldPath newPath).1 ≠ 0 →
          (ramfsOpRename fs oldPath newPath).2 = fs) ↔
      RamfsMoveFits fs oldPath newPath := by
  refine ⟨?_, fun fits => ?_⟩
  · rintro ⟨tree, atomic⟩ node oldParent newParent renames notRoot elsewhere
    have mem := (renames.listed inv).2.resolve_left notRoot
    obtain ⟨⟨absolute, absolute'⟩, long⟩ := renames.accepted notRoot
    obtain ⟨fs₁, detach⟩ := ramfsDetachChild_isSome mem
    obtain ⟨p', rfl, -, count, -⟩ := ramfsDetachChild_ok detach
    have newAt : (fs.setNode oldParent p').nodes newParent = fs.nodes newParent :=
      Ramfs.setNode_nodes_of_ne _ _ elsewhere.symm
    have result : ramfsOpRename fs oldPath newPath =
        if ramfsMaxChildren ≤ (fs.nodes newParent).childCount then (-1, fs.setNode oldParent p')
        else (0, ramfsMoved fs (fs.setNode oldParent p') node newParent
          (ramfsResolve fs newPath false).leaf) := by
      simp [ramfsOpRename, absolute, absolute', long, renames.node, renames.oldParent,
        renames.newParent, renames.missing, elsewhere, detach, newAt, ramfsMoved]
    rw [result] at tree atomic
    have room : ¬ ramfsMaxChildren ≤ (fs.nodes newParent).childCount := by
      intro full
      rw [if_pos full] at atomic
      have unchanged := congrArg (fun fs => (fs.nodes oldParent).childCount) (atomic (by simp))
      simp only [Ramfs.setNode_nodes_self] at unchanged
      omega
    refine ⟨Nat.lt_of_not_le room, fun inside => ?_⟩
    rw [if_neg room] at tree
    have parents := ramfsMoved_parent detach newParent
      (ramfsResolve fs newPath false).leaf
    refine inv.tree.not_rooted_of_move
      (ramfsMoved fs (fs.setNode oldParent p') node newParent
        (ramfsResolve fs newPath false).leaf).tree notRoot inside rfl
      (fun m ne => by simp [Ramfs.tree, parents, ne]) (by simp [Ramfs.tree, parents]) ?_
    refine tree.rooted node ?_
    have usedN : (fs.nodes node).used = true :=
      (inv.tree.entry _ (renames.listed inv).1 node mem).1
    rw [(ramfsMoved_used detach _ _ node).1, usedN]
  · have kept := ramfsOpRename_keeps inv fits
    exact ⟨kept.1.ramfsTree, kept.2⟩

/-! ## Runs -/

/-- A call of one of the operations that change the tree. -/
inductive RamfsAction
  | mkdir (uid : Nat) (path : CString) (mode : Nat)
  | createFile (uid : Nat) (path : CString) (mode : Nat) (data : List UInt8)
  | writeFile (uid : Nat) (path : CString) (data : List UInt8)
  | remove (path : CString)
  | rename (oldPath newPath : CString)

/-- The call's result: its code and the filesystem it leaves. -/
def ramfsCall (fs : Ramfs) : RamfsAction → Int × Ramfs
  | .mkdir uid path mode => ramfsOpMkdir uid fs path mode
  | .createFile uid path mode data => ramfsOpCreateFile uid fs path mode data
  | .writeFile uid path data => ramfsOpWriteFile uid fs path data
  | .remove path => ramfsOpRemove fs path
  | .rename oldPath newPath => ramfsOpRename fs oldPath newPath

/-- One step of a run. -/
def ramfsStep (fs : Ramfs) (a : RamfsAction) : Ramfs := (ramfsCall fs a).2

/-- After the call the nodes form a tree, and a rename that failed changed nothing. -/
def RamfsCallKeepsTree (fs : Ramfs) (a : RamfsAction) : Prop :=
  RamfsTree (ramfsStep fs a) ∧
    ∀ oldPath newPath, a = .rename oldPath newPath → (ramfsCall fs a).1 ≠ 0 → ramfsStep fs a = fs

/-- If the call is a rename, the move it asks for fits. -/
def RamfsCallFits (fs : Ramfs) : RamfsAction → Prop
  | .rename oldPath newPath => RamfsMoveFits fs oldPath newPath
  | _ => True

theorem ramfsStep_inv {fs : Ramfs} {a : RamfsAction} (inv : RamfsInv fs)
    (fits : RamfsCallFits fs a) : RamfsInv (ramfsStep fs a) := by
  cases a with
  | mkdir uid path mode => exact ramfsOpMkdir_inv inv uid path mode
  | createFile uid path mode data => exact ramfsOpCreateFile_inv inv uid path mode data
  | writeFile uid path data => exact ramfsOpCreateFile_inv inv uid path 0 data
  | remove path => exact ramfsOpRemove_inv inv path
  | rename oldPath newPath => exact (ramfsOpRename_keeps inv fits).1

theorem ramfsCallKeepsTree_iff {fs : Ramfs} (a : RamfsAction) (inv : RamfsInv fs) :
    RamfsCallKeepsTree fs a ↔ RamfsCallFits fs a := by
  cases a with
  | rename oldPath newPath =>
      refine Iff.trans ?_ (ramfsRename_keeps_iff inv oldPath newPath)
      refine and_congr Iff.rfl ⟨fun keep => keep _ _ rfl, ?_⟩
      rintro keep _ _ ⟨⟩
      exact keep
  | _ =>
      refine ⟨fun _ => trivial, fun fits => ⟨(ramfsStep_inv inv fits).ramfsTree, ?_⟩⟩
      rintro _ _ ⟨⟩

/-- **The RAM filesystem is a tree in every state of a run, and its failed renames
change nothing, exactly when every rename of the run asks for a move that fits.** -/
theorem ramfs_tree_along_run_iff (as : List RamfsAction) :
    RamfsTree ramfsInit ∧ AllSteps ramfsStep RamfsCallKeepsTree ramfsInit as ↔
      AllSteps ramfsStep RamfsCallFits ramfsInit as := by
  rw [allSteps_iff_of_invariant (fun _ _ inv fits => ramfsStep_inv inv fits)
    (fun _ a inv => ramfsCallKeepsTree_iff a inv) ramfsInit_inv]
  exact and_iff_right ramfsInit_inv.ramfsTree

/-- Moving `/a` to `/a/b` succeeds and cuts `a` off from the root. -/
theorem ramfs_rename_into_itself :
    ¬ ∀ as : List RamfsAction, AllSteps ramfsStep RamfsCallKeepsTree ramfsInit as := by
  intro always
  have run := always [.mkdir 0 [slash, 0x61] 0, .rename [slash, 0x61] [slash, 0x61, slash, 0x62]]
  have inv : RamfsInv (ramfsStep ramfsInit (.mkdir 0 [slash, 0x61] 0)) :=
    ramfsStep_inv ramfsInit_inv trivial
  have fits := (ramfsRename_keeps_iff inv _ _).1 ⟨run.2.1.1, run.2.1.2 _ _ rfl⟩
  exact (fits 1 0 1 ⟨rfl, rfl, rfl, rfl⟩ (by decide) (by decide)).2 (NamedTree.Above.refl _ _)

end NTux.Fs
