import Mathlib.Data.Nat.Find
import Mathlib.Logic.Function.Iterate
import Mathlib.Data.List.Nodup

/-!
# Trees stored as parent pointers and entry lists

A `NamedTree` is a table of nodes in which each node stores its parent and its
name, and each directory stores the list of its entries: the same tree written
down twice.  `WellFormed` says that the two agree, that every node in use hangs
below the root, and that no directory lists one name twice.

The rules state what an edit has to say about the table for the tree to stay
well formed: a new leaf (`WellFormed.addLeaf`), a leaf taken out
(`WellFormed.removeLeaf`), a node renamed in place (`WellFormed.rename`), a
subtree moved to a directory outside it (`WellFormed.move`).  A subtree moved
into itself is cut off from the root for good (`WellFormed.not_rooted_of_move`).
-/

namespace NTux.Lib

universe u v

/-- A table of nodes with parent pointers, names and entry lists. -/
structure NamedTree (ι : Type u) (ν : Type v) where
  root : ι
  used : ι → Prop
  isDir : ι → Prop
  parent : ι → ι
  name : ι → ν
  entries : ι → List ι

namespace NamedTree

variable {ι : Type u} {ν : Type v} {T T' : NamedTree ι ν} {n p q : ι}

/-- `a` is `n` itself or one of its ancestors. -/
def Above (T : NamedTree ι ν) (a n : ι) : Prop := ∃ k, T.parent^[k] n = a

theorem Above.refl (T : NamedTree ι ν) (n : ι) : T.Above n n := ⟨0, rfl⟩

theorem Above.of_parent (above : T.Above p (T.parent n)) : T.Above p n := by
  obtain ⟨k, path⟩ := above
  exact ⟨k + 1, by simpa using path⟩

/-- The parent pointers and the entry lists describe one tree. -/
structure WellFormed (T : NamedTree ι ν) : Prop where
  root_used : T.used T.root
  root_dir : T.isDir T.root
  root_parent : T.parent T.root = T.root
  /-- What a node lists are nodes in use that point back to it. -/
  entry : ∀ d, T.used d → ∀ c ∈ T.entries d, T.used c ∧ c ≠ T.root ∧ T.parent c = d
  nodup : ∀ d, T.used d → (T.entries d).Nodup
  /-- Every node but the root is listed by its parent, a directory. -/
  listed : ∀ n, T.used n → n ≠ T.root →
    T.used (T.parent n) ∧ T.isDir (T.parent n) ∧ n ∈ T.entries (T.parent n)
  rooted : ∀ n, T.used n → T.Above T.root n
  names : ∀ d, T.used d → ∀ c ∈ T.entries d, ∀ c' ∈ T.entries d, T.name c = T.name c' → c = c'

namespace WellFormed

theorem parent_used (wf : T.WellFormed) (used : T.used n) : T.used (T.parent n) := by
  by_cases isRoot : n = T.root
  · rw [isRoot, wf.root_parent]
    exact wf.root_used
  · exact (wf.listed n used isRoot).1

/-- A node that lists something is a directory. -/
theorem dir_of_entry (wf : T.WellFormed) (used : T.used p) (mem : n ∈ T.entries p) : T.isDir p := by
  obtain ⟨child, notRoot, rfl⟩ := wf.entry p used n mem
  exact (wf.listed n child notRoot).2.1

/-- Parent pointers that agree with the old ones on the nodes in use still lead
every one of them to the root. -/
theorem rooted_of_parent_eq (wf : T.WellFormed) (keep : ι → Prop)
    (up : ∀ m, T.used m → keep m → m ≠ T.root → keep (T.parent m) ∧ T'.parent m = T.parent m)
    (root : T'.root = T.root) (used : T.used n) (kept : keep n) : T'.Above T'.root n := by
  obtain ⟨k, path⟩ := wf.rooted n used
  induction k generalizing n with
  | zero => exact ⟨0, by rw [root]; exact path⟩
  | succ k ih =>
      by_cases isRoot : n = T.root
      · exact ⟨0, by rw [root]; exact isRoot⟩
      · obtain ⟨keptParent, same⟩ := up n used kept isRoot
        have above := ih (wf.parent_used used) keptParent path
        rw [← same] at above
        exact above.of_parent

/-! ### Edits -/

/-- **A new leaf.**  `n` was not in use and is now listed, last, by the directory `p`. -/
theorem addLeaf (wf : T.WellFormed) (dir : T.used p ∧ T.isDir p) (fresh : ¬ T.used n)
    (newName : ∀ c ∈ T.entries p, T.name c ≠ T'.name n)
    (root : T'.root = T.root) (used : ∀ m, T'.used m ↔ m = n ∨ T.used m)
    (same : ∀ m, m ≠ n → (T'.isDir m ↔ T.isDir m) ∧ T'.parent m = T.parent m ∧
      T'.name m = T.name m)
    (parent : T'.parent n = p) (leaf : T'.entries n = [])
    (listed : T'.entries p = T.entries p ++ [n])
    (others : ∀ m, m ≠ n → m ≠ p → T'.entries m = T.entries m) : T'.WellFormed := by
  have away : ∀ m, T.used m → m ≠ n := fun m inUse eq => fresh (eq ▸ inUse)
  have entriesOf : ∀ d, T'.used d → ∀ c, c ∈ T'.entries d →
      (d = p ∧ c = n) ∨ (T.used d ∧ c ∈ T.entries d) := by
    intro d usedD c mem
    rcases eq_or_ne d n with rfl | ne
    · simp [leaf] at mem
    have usedOld := ((used d).1 usedD).resolve_left ne
    rcases eq_or_ne d p with rfl | ne'
    · rw [listed, List.mem_append, List.mem_singleton] at mem
      exact mem.elim (fun mem => Or.inr ⟨usedOld, mem⟩) fun eq => Or.inl ⟨rfl, eq⟩
    · rw [others d ne ne'] at mem
      exact Or.inr ⟨usedOld, mem⟩
  have notListed : ∀ d, T.used d → n ∉ T.entries d := fun d usedD mem =>
    fresh (wf.entry d usedD n mem).1
  have rootAway : T.root ≠ n := away _ wf.root_used
  constructor
  · rw [root]
    exact (used _).2 (Or.inr wf.root_used)
  · rw [root]
    exact (same _ rootAway).1.2 wf.root_dir
  · rw [root, (same _ rootAway).2.1, wf.root_parent]
  · intro d usedD c mem
    rcases entriesOf d usedD c mem with ⟨rfl, rfl⟩ | ⟨usedOld, memOld⟩
    · exact ⟨(used _).2 (Or.inl rfl), root ▸ rootAway.symm, parent⟩
    · obtain ⟨usedC, notRoot, parentC⟩ := wf.entry d usedOld c memOld
      exact ⟨(used _).2 (Or.inr usedC), root ▸ notRoot,
        by rw [(same c (away c usedC)).2.1, parentC]⟩
  · intro d usedD
    rcases eq_or_ne d n with rfl | ne
    · simp [leaf]
    have usedOld := ((used d).1 usedD).resolve_left ne
    rcases eq_or_ne d p with rfl | ne'
    · rw [listed]
      exact (List.nodup_append.2 ⟨wf.nodup d usedOld, by simp, fun a mem b mem' eq => by
        rw [List.mem_singleton.1 mem'] at eq
        exact notListed d usedOld (eq ▸ mem)⟩)
    · rw [others d ne ne']
      exact wf.nodup d usedOld
  · intro m usedM notRoot
    rcases eq_or_ne m n with rfl | ne
    · rw [parent, listed]
      exact ⟨(used _).2 (Or.inr dir.1), (same p (away p dir.1)).1.2 dir.2, by simp⟩
    · have usedOld := ((used m).1 usedM).resolve_left ne
      obtain ⟨usedP, dirP, mem⟩ := wf.listed m usedOld (root ▸ notRoot)
      have awayP := away _ usedP
      rw [(same m ne).2.1]
      refine ⟨(used _).2 (Or.inr usedP), (same _ awayP).1.2 dirP, ?_⟩
      rcases eq_or_ne (T.parent m) p with eq | ne'
      · rw [eq, listed]
        exact List.mem_append_left _ (eq ▸ mem)
      · rwa [others _ awayP ne']
  · have old : ∀ m, T.used m → T'.Above T'.root m := fun m usedM =>
      wf.rooted_of_parent_eq (fun _ => True)
        (fun m usedM _ _ => ⟨trivial, (same m (away m usedM)).2.1⟩) root usedM trivial
    intro m usedM
    rcases (used m).1 usedM with rfl | usedOld
    · exact Above.of_parent (by rw [parent]; exact old p dir.1)
    · exact old m usedOld
  · intro d usedD c mem c' mem' eq
    rcases entriesOf d usedD c mem with ⟨isP, rfl⟩ | ⟨usedOld, memOld⟩ <;>
      rcases entriesOf d usedD c' mem' with ⟨isP', rfl⟩ | ⟨usedOld', memOld'⟩
    · rfl
    · subst isP
      rw [(same c' (away c' (wf.entry d usedOld' c' memOld').1)).2.2] at eq
      exact absurd eq.symm (newName c' memOld')
    · subst isP'
      rw [(same c (away c (wf.entry d usedOld c memOld).1)).2.2] at eq
      exact absurd eq (newName c memOld)
    · rw [(same c (away c (wf.entry d usedOld c memOld).1)).2.2,
        (same c' (away c' (wf.entry d usedOld' c' memOld').1)).2.2] at eq
      exact wf.names d usedOld c memOld c' memOld' eq

/-- **A leaf taken out.**  `n` lists nothing, is dropped from its parent's list and
is no longer in use. -/
theorem removeLeaf [DecidableEq ι] (wf : T.WellFormed) (usedN : T.used n) (notRoot : n ≠ T.root)
    (leaf : T.entries n = [])
    (root : T'.root = T.root) (used : ∀ m, T'.used m ↔ m ≠ n ∧ T.used m)
    (same : ∀ m, m ≠ n → (T'.isDir m ↔ T.isDir m) ∧ T'.parent m = T.parent m ∧
      T'.name m = T.name m)
    (dropped : T'.entries (T.parent n) = (T.entries (T.parent n)).erase n)
    (others : ∀ m, m ≠ n → m ≠ T.parent n → T'.entries m = T.entries m) : T'.WellFormed := by
  obtain ⟨usedP, -, memN⟩ := wf.listed n usedN notRoot
  have entriesOf : ∀ d, T'.used d → ∀ c, c ∈ T'.entries d ↔ c ≠ n ∧ c ∈ T.entries d := by
    intro d usedD c
    obtain ⟨ne, usedOld⟩ := (used d).1 usedD
    rcases eq_or_ne d (T.parent n) with rfl | ne'
    · rw [dropped, (wf.nodup _ usedOld).mem_erase_iff]
    · rw [others d ne ne']
      refine ⟨fun mem => ⟨?_, mem⟩, fun mem => mem.2⟩
      rintro rfl
      exact ne' (wf.entry d usedOld _ mem).2.2.symm
  have parentAway : ∀ m, T.used m → m ≠ T.root → T.parent m ≠ n := by
    intro m usedM notRootM eq
    have mem := (wf.listed m usedM notRootM).2.2
    simp [eq, leaf] at mem
  constructor
  · rw [root]
    exact (used _).2 ⟨notRoot.symm, wf.root_used⟩
  · rw [root]
    exact (same _ notRoot.symm).1.2 wf.root_dir
  · rw [root, (same _ notRoot.symm).2.1, wf.root_parent]
  · intro d usedD c mem
    obtain ⟨ne, memOld⟩ := (entriesOf d usedD c).1 mem
    obtain ⟨usedC, notRootC, parentC⟩ := wf.entry d ((used d).1 usedD).2 c memOld
    exact ⟨(used c).2 ⟨ne, usedC⟩, root ▸ notRootC, by rw [(same c ne).2.1, parentC]⟩
  · intro d usedD
    obtain ⟨ne, usedOld⟩ := (used d).1 usedD
    rcases eq_or_ne d (T.parent n) with rfl | ne'
    · rw [dropped]
      exact (wf.nodup _ usedOld).erase n
    · rw [others d ne ne']
      exact wf.nodup d usedOld
  · intro m usedM notRootM
    obtain ⟨ne, usedOld⟩ := (used m).1 usedM
    rw [root] at notRootM
    obtain ⟨usedPM, dirPM, mem⟩ := wf.listed m usedOld notRootM
    have awayPM := parentAway m usedOld notRootM
    have usedPM' := (used _).2 ⟨awayPM, usedPM⟩
    rw [(same m ne).2.1]
    exact ⟨usedPM', (same _ awayPM).1.2 dirPM, (entriesOf _ usedPM' m).2 ⟨ne, mem⟩⟩
  · intro m usedM
    obtain ⟨ne, usedOld⟩ := (used m).1 usedM
    exact wf.rooted_of_parent_eq (· ≠ n)
      (fun a usedA neA notRootA => ⟨parentAway a usedA notRootA, (same a neA).2.1⟩)
      root usedOld ne
  · intro d usedD c mem c' mem' eq
    obtain ⟨ne, memOld⟩ := (entriesOf d usedD c).1 mem
    obtain ⟨ne', memOld'⟩ := (entriesOf d usedD c').1 mem'
    rw [(same c ne).2.2, (same c' ne').2.2] at eq
    exact wf.names d ((used d).1 usedD).2 c memOld c' memOld' eq

/-- **A node renamed in place**, to a name its directory does not list. -/
theorem rename (wf : T.WellFormed)
    (newName : n ≠ T.root → ∀ c ∈ T.entries (T.parent n), T.name c ≠ T'.name n)
    (root : T'.root = T.root) (used : ∀ m, T'.used m ↔ T.used m)
    (same : ∀ m, (T'.isDir m ↔ T.isDir m) ∧ T'.parent m = T.parent m ∧
      T'.entries m = T.entries m)
    (name : ∀ m, m ≠ n → T'.name m = T.name m) : T'.WellFormed := by
  have fresh : ∀ d, T.used d → n ∈ T.entries d → ∀ c ∈ T.entries d, T.name c ≠ T'.name n := by
    intro d usedD mem c memC
    obtain ⟨-, notRoot, rfl⟩ := wf.entry d usedD n mem
    exact newName notRoot c memC
  constructor
  · rw [root]
    exact (used _).2 wf.root_used
  · rw [root]
    exact (same _).1.2 wf.root_dir
  · rw [root, (same _).2.1, wf.root_parent]
  · intro d usedD c mem
    rw [(same d).2.2] at mem
    obtain ⟨usedC, notRootC, parentC⟩ := wf.entry d ((used d).1 usedD) c mem
    exact ⟨(used c).2 usedC, root ▸ notRootC, by rw [(same c).2.1, parentC]⟩
  · intro d usedD
    rw [(same d).2.2]
    exact wf.nodup d ((used d).1 usedD)
  · intro m usedM notRootM
    rw [root] at notRootM
    obtain ⟨usedP, dirP, mem⟩ := wf.listed m ((used m).1 usedM) notRootM
    rw [(same m).2.1, (same (T.parent m)).2.2]
    exact ⟨(used _).2 usedP, (same _).1.2 dirP, mem⟩
  · intro m usedM
    exact wf.rooted_of_parent_eq (fun _ => True) (fun a _ _ _ => ⟨trivial, (same a).2.1⟩)
      root ((used m).1 usedM) trivial
  · intro d usedD c mem c' mem' eq
    rw [(same d).2.2] at mem mem'
    have usedOld := (used d).1 usedD
    by_cases isN : c = n <;> by_cases isN' : c' = n
    · rw [isN, isN']
    · subst isN
      rw [name c' isN'] at eq
      exact absurd eq.symm (fresh d usedOld mem c' mem')
    · subst isN'
      rw [name c isN] at eq
      exact absurd eq (fresh d usedOld mem' c mem)
    · rw [name c isN, name c' isN'] at eq
      exact wf.names d usedOld c mem c' mem' eq

/-- **A subtree moved** from its parent to the directory `q`, which does not lie in it. -/
theorem move [DecidableEq ι] (wf : T.WellFormed) (usedN : T.used n) (notRoot : n ≠ T.root)
    (dir : T.used q ∧ T.isDir q) (outside : ¬ T.Above n q) (elsewhere : T.parent n ≠ q)
    (newName : ∀ c ∈ T.entries q, T.name c ≠ T'.name n)
    (root : T'.root = T.root) (used : ∀ m, T'.used m ↔ T.used m)
    (isDir : ∀ m, T'.isDir m ↔ T.isDir m)
    (same : ∀ m, m ≠ n → T'.parent m = T.parent m ∧ T'.name m = T.name m)
    (parent : T'.parent n = q)
    (dropped : T'.entries (T.parent n) = (T.entries (T.parent n)).erase n)
    (listed : T'.entries q = T.entries q ++ [n])
    (others : ∀ m, m ≠ T.parent n → m ≠ q → T'.entries m = T.entries m) : T'.WellFormed := by
  obtain ⟨usedP, -, memN⟩ := wf.listed n usedN notRoot
  have notIn : ∀ d, T.used d → d ≠ T.parent n → n ∉ T.entries d := fun d usedD ne mem =>
    ne (wf.entry d usedD n mem).2.2.symm
  have entriesOf : ∀ d, T.used d → ∀ c, c ∈ T'.entries d →
      (d = q ∧ c = n) ∨ (c ≠ n ∧ c ∈ T.entries d) := by
    intro d usedD c mem
    rcases eq_or_ne d (T.parent n) with rfl | ne
    · rw [dropped, (wf.nodup _ usedD).mem_erase_iff] at mem
      exact Or.inr mem
    have away : c ∈ T.entries d → c ≠ n := fun memOld eq => notIn d usedD ne (eq ▸ memOld)
    rcases eq_or_ne d q with rfl | ne'
    · rw [listed, List.mem_append, List.mem_singleton] at mem
      exact mem.elim (fun memOld => Or.inr ⟨away memOld, memOld⟩) fun eq => Or.inl ⟨rfl, eq⟩
    · rw [others d ne ne'] at mem
      exact Or.inr ⟨away mem, mem⟩
  have kept : ∀ d c, c ≠ n → c ∈ T.entries d → T.used d → c ∈ T'.entries d := by
    intro d c ne mem usedD
    rcases eq_or_ne d (T.parent n) with rfl | ne'
    · rw [dropped, (wf.nodup _ usedD).mem_erase_iff]
      exact ⟨ne, mem⟩
    rcases eq_or_ne d q with rfl | ne''
    · rw [listed]
      exact List.mem_append_left _ mem
    · rwa [others d ne' ne'']
  constructor
  · rw [root]
    exact (used _).2 wf.root_used
  · rw [root]
    exact (isDir _).2 wf.root_dir
  · rw [root, (same _ notRoot.symm).1, wf.root_parent]
  · intro d usedD c mem
    rcases entriesOf d ((used d).1 usedD) c mem with ⟨rfl, rfl⟩ | ⟨ne, memOld⟩
    · exact ⟨(used _).2 usedN, root ▸ notRoot, parent⟩
    · obtain ⟨usedC, notRootC, parentC⟩ := wf.entry d ((used d).1 usedD) c memOld
      exact ⟨(used c).2 usedC, root ▸ notRootC, by rw [(same c ne).1, parentC]⟩
  · intro d usedD
    have usedOld := (used d).1 usedD
    rcases eq_or_ne d (T.parent n) with rfl | ne
    · rw [dropped]
      exact (wf.nodup _ usedOld).erase n
    rcases eq_or_ne d q with rfl | ne'
    · rw [listed]
      exact List.nodup_append.2 ⟨wf.nodup d usedOld, by simp, fun a mem b mem' eq => by
        rw [List.mem_singleton.1 mem'] at eq
        exact notIn d usedOld ne (eq ▸ mem)⟩
    · rw [others d ne ne']
      exact wf.nodup d usedOld
  · intro m usedM notRootM
    rw [root] at notRootM
    rcases eq_or_ne m n with rfl | ne
    · rw [parent, listed]
      exact ⟨(used _).2 dir.1, (isDir _).2 dir.2, by simp⟩
    · obtain ⟨usedPM, dirPM, mem⟩ := wf.listed m ((used m).1 usedM) notRootM
      rw [(same m ne).1]
      exact ⟨(used _).2 usedPM, (isDir _).2 dirPM, kept _ _ ne mem usedPM⟩
  · have fromQ : T'.Above T'.root q :=
      wf.rooted_of_parent_eq (fun m => ¬ T.Above n m)
        (fun m _ notAbove _ => ⟨fun above => notAbove above.of_parent,
          (same m fun eq => notAbove (eq ▸ Above.refl T m)).1⟩) root dir.1 outside
    -- induction on the length of the old path; it may now turn off at `n`
    have all : ∀ k m, T.parent^[k] m = T.root → T'.Above T'.root m := by
      intro k
      induction k with
      | zero => exact fun m path => ⟨0, by rw [root]; exact path⟩
      | succ k ih =>
          intro m path
          rcases eq_or_ne m n with rfl | ne
          · exact Above.of_parent (by rw [parent]; exact fromQ)
          · exact Above.of_parent (by rw [(same m ne).1]; exact ih _ path)
    intro m usedM
    obtain ⟨k, path⟩ := wf.rooted m ((used m).1 usedM)
    exact all k m path
  · intro d usedD c mem c' mem' eq
    have usedOld := (used d).1 usedD
    rcases entriesOf d usedOld c mem with ⟨isQ, rfl⟩ | ⟨ne, memOld⟩ <;>
      rcases entriesOf d usedOld c' mem' with ⟨isQ', rfl⟩ | ⟨ne', memOld'⟩
    · rfl
    · subst isQ
      rw [(same c' ne').2] at eq
      exact absurd eq.symm (newName c' memOld')
    · subst isQ'
      rw [(same c ne).2] at eq
      exact absurd eq (newName c memOld)
    · rw [(same c ne).2, (same c' ne').2] at eq
      exact wf.names d usedOld c memOld c' memOld' eq

/-- **A subtree moved into itself never reaches the root again**: the pointers
from `n` run in a circle through its new parent `q`. -/
theorem not_rooted_of_move [DecidableEq ι] (wf : T.WellFormed) (T' : NamedTree ι ν)
    (notRoot : n ≠ T.root) (inside : T.Above n q) (root : T'.root = T.root)
    (same : ∀ m, m ≠ n → T'.parent m = T.parent m) (parent : T'.parent n = q) :
    ¬ T'.Above T'.root n := by
  classical
  let k := Nat.find inside
  have arrive : T.parent^[k] q = n := Nat.find_spec inside
  have before : ∀ j < k, T.parent^[j] q ≠ n := fun j lt => Nat.find_min inside lt
  have rootStays : ∀ i, T.parent^[i] T.root = T.root := fun i =>
    Function.iterate_fixed wf.root_parent i
  have offRoot : ∀ j ≤ k, T.parent^[j] q ≠ T.root := by
    intro j le eq
    have : T.parent^[k] q = T.root := by
      rw [← Nat.sub_add_cancel le, Function.iterate_add_apply, eq, rootStays]
    exact notRoot (arrive.symm.trans this)
  -- the circle: the nodes on the old path from `q` up to `n`
  have circle : ∀ i, ∃ j ≤ k, T'.parent^[i] n = T.parent^[j] q := by
    intro i
    induction i with
    | zero => exact ⟨k, le_rfl, arrive.symm⟩
    | succ i ih =>
        obtain ⟨j, le, eq⟩ := ih
        rw [Function.iterate_succ_apply', eq]
        rcases Nat.lt_or_eq_of_le le with lt | rfl
        · exact ⟨j + 1, lt, by rw [same _ (before j lt), Function.iterate_succ_apply']⟩
        · exact ⟨0, Nat.zero_le _, by rw [arrive, parent]; rfl⟩
  rintro ⟨i, eq⟩
  obtain ⟨j, le, eq'⟩ := circle i
  exact offRoot j le (by rw [← eq', eq, root])

end WellFormed

end NamedTree

end NTux.Lib
