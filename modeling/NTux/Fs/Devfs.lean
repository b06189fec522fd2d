import NTux.Fs.MountTable
import Mathlib.Data.List.MinMax
import Mathlib.Algebra.Group.Nat.Defs

/-!
# The device filesystem

The table of devices of `fs/devfs.c` under its names, such as `null` and `input/event0`.  Two
ways lead to it: `fd_open` strips `/dev/` from a path and looks for the rest, and the VFS hands
the backend a path that begins with a slash.

No registered name begins with a slash, so the second way finds none of them, and neither does a
listing: the two ways agree only as long as no device is registered
(`device_namespace_iff`).
-/

namespace NTux.Fs

variable {σ δ : Type}

/-- `devfs_node_t`, a slot in use: `devfs_add_node` takes no empty name. -/
structure DevfsNode (δ : Type) where
  name : CString
  device : δ
  named : name ≠ []

/-- `DEVFS_MAX_NODES`. -/
def devfsMaxNodes : Nat := 16

/-- `devfs_add_node`. -/
def devfsAddNode (nodes : List (DevfsNode δ)) (name : CString) (device : δ) :
    Int × List (DevfsNode δ) :=
  if named : name = [] then (-1, nodes)
  else if nodes.length < devfsMaxNodes then
    (0, nodes ++ [⟨name.take (vfsMaxName - 1), device, fun empty => named (by
      rcases List.take_eq_nil_iff.1 empty with zero | empty
      · cases zero
      · exact empty)⟩])
  else (-1, nodes)

/-- `devfs_open`: the device of a name. -/
def devfsOpen (nodes : List (DevfsNode δ)) (name : CString) : Option δ :=
  if name = [] then none else (nodes.find? fun node => node.name == name).map DevfsNode.device

/-- `devfs_has_prefix`. -/
def devfsHasPrefix (path front : CString) : Bool :=
  front.isPrefixOf path && (path.drop front.length).head?.all (· == slash)

/-- What `devfs_list_children` shows of a node in `path`: the name of a child, and whether it is
a directory. -/
def devfsChild (path name : CString) : Option (CString × Bool) :=
  if !devfsHasPrefix name path then none
  else
    let rel := name.drop path.length
    let rel := if path ≠ [] ∧ rel.head? = some slash then rel.tail else rel
    let child := rel.takeWhile (· ≠ slash)
    if child.length = 0 ∨ vfsMaxName ≤ child.length then none else some (child, rel.contains slash)

local instance lawfulName : LawfulBEq CString := inferInstance

/-- `devfs_emit_child`, unless `devfs_name_exists` finds the name among the entries stored. -/
def devfsEmit (out : Bool) (maxEntries : Nat) (acc : List VfsDirent × Nat) (child : CString × Bool) :
    List VfsDirent × Nat :=
  if out ∧ child.1 ∈ acc.1.map VfsDirent.name then acc
  else (if out ∧ acc.2 < maxEntries then acc.1 ++ [⟨child.1, child.2, 0⟩] else acc.1, acc.2 + 1)

/-- `devfs_list_children`. -/
def devfsListChildren (nodes : List (DevfsNode δ)) (path : CString) (out : Bool) (maxEntries : Nat) :
    ListOutcome :=
  let acc := (nodes.filterMap fun node => devfsChild path node.name).foldl
    (devfsEmit out maxEntries) ([], 0)
  ⟨0, some acc.2, acc.1⟩

/-- `devfs_op_list_dir`. -/
def devfsOpListDir (nodes : List (DevfsNode δ)) (path : CString) (out : Bool) (maxEntries : Nat) :
    ListOutcome :=
  devfsListChildren nodes (if path = [slash] then [] else path) out maxEntries

/-- `devfs_op_exists`. -/
def devfsOpExists (nodes : List (DevfsNode δ)) (path : CString) : Int :=
  if path = [slash] ∨ path = [] then 1
  else if nodes.any fun node => node.name == path || devfsHasPrefix node.name path then 1
  else 0

/-- `devfs_op_getattr`. -/
def devfsOpGetattr (nodes : List (DevfsNode δ)) (path : CString) : Option Attr :=
  if path = [slash] ∨ path = [] then some ⟨0o755, 0, 0⟩
  else if nodes.any fun node => node.name == path then some ⟨0o666, 0, 0⟩
  else none

/-- `g_devfs_ops`, over a store that has the table in it. -/
def devfsOps (nodes : σ → List (DevfsNode δ)) : VfsOps σ where
  mkdir := some fun st _ _ => (-1, st)
  createFile := some fun st _ _ _ => (-1, st)
  writeFile := some fun st _ _ => (-1, st)
  readFile := some fun _ _ cap => if cap = none ∨ cap = some 0 then ⟨0, some 0, []⟩ else ⟨-1, some 0, []⟩
  listDir := some fun st path out maxEntries => devfsOpListDir (nodes st) path out maxEntries
  exists_ := some fun st path => devfsOpExists (nodes st) path
  remove := some fun st _ => (-1, st)
  rename := some fun st _ _ => (-1, st)
  getattr := some fun st path => devfsOpGetattr (nodes st) path
  chmod := some fun st _ _ => (0, st)
  chown := some fun st _ _ _ => (0, st)

/-- `"/dev"`. -/
def devPoint : CString := [slash, 0x64, 0x65, 0x76]

/-- The device that `fd_open` finds under a path: `fd_open_dev` skips `/dev/`. -/
def fdOpenDev (nodes : List (DevfsNode δ)) (path : CString) : Option δ := devfsOpen nodes (path.drop 5)

/-! ## The two ways to a device -/

/-- devfs is mounted at `/dev`, and nothing below it. -/
structure DevMounted (mounts : List (Mount σ)) (dev : Mount σ) (nodes : σ → List (DevfsNode δ)) :
    Prop where
  mounted : dev ∈ mounts
  point : dev.mountPoint = devPoint
  ops : dev.ops = devfsOps nodes
  alone : ∀ m ∈ mounts, ¬ (devPoint ++ [slash]) <+: m.mountPoint

/-- The directories that the recursive listing from `/dev` comes to. -/
inductive DevDir (who : Identity) (v : Vfs σ) : CString → Prop
  | root : DevDir who v devPoint
  | sub {dir : CString} {e : VfsDirent} (maxEntries : Nat) (above : DevDir who v dir)
      (listed : e ∈ (vfsListDir who v dir true maxEntries).1.out) (isDir : e.isDir = true) :
      DevDir who v (dir ++ slash :: e.name)

/-- It reaches a device under the name. -/
def DevListed (who : Identity) (v : Vfs σ) (n : CString) : Prop :=
  ∃ dir e maxEntries, DevDir who v dir ∧ e ∈ (vfsListDir who v dir true maxEntries).1.out ∧
    e.isDir = false ∧ dir ++ slash :: e.name = devPoint ++ slash :: n

/-- `fd_open`, `vfs_getattr`, `vfs_exists` and the recursive listing know the same devices. -/
structure DevicesAgree (who : Identity) (v : Vfs σ) (nodes : List (DevfsNode δ)) : Prop where
  getattr : ∀ n, n ≠ [] → ((fdOpenDev nodes (devPoint ++ slash :: n)).isSome = true ↔
    ∃ a, vfsGetattr v (devPoint ++ slash :: n) = some a ∧ a.mode = 0o666)
  exists_ : ∀ n, n ≠ [] → ((fdOpenDev nodes (devPoint ++ slash :: n)).isSome = true ↔
    0 < vfsExists v (devPoint ++ slash :: n))
  listed : ∀ n, DevListed who v n ↔ n ∈ nodes.map DevfsNode.name

section Namespace

variable {mounts : List (Mount σ)} {dev : Mount σ} {nodes : σ → List (DevfsNode δ)}

/-- No mount point that a path of devfs lies below is longer than `/dev`. -/
theorem DevMounted.not_longer (at_ : DevMounted mounts dev nodes) {best : Mount σ} {rest : CString}
    (mounted : best ∈ mounts) (ends : rest = [] ∨ rest.head? = some slash)
    (within : ComponentPrefix best.mountPoint (devPoint ++ rest)) :
    ¬ devPoint.length < best.mountPoint.length := by
  intro longer
  rcases within with ⟨root, -⟩ | ⟨tail, eq, -⟩
  · rw [root] at longer
    exact absurd longer (by decide)
  · have below : devPoint ++ [slash] <+: devPoint ++ rest := by
      rcases ends with rfl | head
      · have lengths := congrArg List.length eq
        rw [List.length_append, List.length_append, List.length_nil] at lengths
        omega
      · cases rest with
        | nil => cases head
        | cons c rest =>
            obtain rfl := Option.some.inj head
            exact ⟨rest, by simp⟩
    refine at_.alone best mounted (List.prefix_of_prefix_length_le below ⟨tail, eq.symm⟩ ?_)
    rw [List.length_append, List.length_singleton]
    exact longer

/-- The paths of devfs: `/dev` and what is below it. -/
theorem DevMounted.find (at_ : DevMounted mounts dev nodes) (well : WellMounted mounts)
    (n : CString) :
    vfsFindMount mounts (devPoint ++ slash :: n) = some (dev, slash :: n) ∧
      vfsFindMount mounts devPoint = some (dev, [slash]) := by
  have lookup : ∀ rest : CString, rest = [] ∨ rest.head? = some slash →
      vfsFindMount mounts (devPoint ++ rest) = some (dev, relativePath dev (devPoint ++ rest)) := by
    intro rest ends
    have absolute : (devPoint ++ rest).head? = some slash := rfl
    have within : ComponentPrefix dev.mountPoint (devPoint ++ rest) :=
      .inr ⟨rest, by rw [at_.point], ends⟩
    cases found : vfsFindMount mounts (devPoint ++ rest) with
    | none => exact absurd within ((vfsFindMount_none well absolute).1 found dev at_.mounted)
    | some r =>
        obtain ⟨m, rel⟩ := r
        have resolves := vfsFindMount_resolves well absolute found
        obtain ⟨best, -, eq⟩ := Option.map_eq_some_iff.1 found
        obtain ⟨rfl, rfl⟩ := Prod.mk.inj eq
        rcases resolves.longest dev at_.mounted within with same | longer
        · rw [same]
        · rw [at_.point] at longer
          exact absurd longer (at_.not_longer resolves.mounted ends resolves.within)
  have relative : ∀ rest : CString, relativePath dev (devPoint ++ rest) =
      if rest = [] then [slash] else rest := by
    intro rest
    unfold relativePath
    rw [at_.point, if_neg (by decide), List.drop_left]
  constructor
  · rw [lookup (slash :: n) (.inr rfl), relative, if_neg (List.cons_ne_nil _ _)]
  · have here := lookup [] (.inl rfl)
    rw [relative, if_pos rfl, List.append_nil] at here
    exact here

/-- What `vfs_list_dir` makes of the answer of a backend. -/
theorem vfsListDir_listed {who : Identity} {v : Vfs σ} {path rel : CString} {m : Mount σ}
    {f : σ → CString → Bool → Nat → ListOutcome} {out : Bool} {maxEntries : Nat}
    (mount : vfsFindMount v.mounts path = some (m, rel)) (ops : m.ops.listDir = some f)
    (ok : (f v.store rel out maxEntries).rc = 0) :
    (vfsListDir who v path out maxEntries).1 =
      ⟨0, some (v.mounts.foldl (mergeMountChild path out maxEntries)
          ((f v.store rel out maxEntries).out, (f v.store rel out maxEntries).outCount.getD 0)).2,
        (v.mounts.foldl (mergeMountChild path out maxEntries)
          ((f v.store rel out maxEntries).out, (f v.store rel out maxEntries).outCount.getD 0)).1⟩ := by
  unfold vfsListDir
  rw [mount]
  dsimp only
  rw [ops]
  dsimp only
  rw [if_neg (not_not.2 ok)]

theorem fdOpenDev_isSome (nodes : List (DevfsNode δ)) {n : CString} (ne : n ≠ []) :
    (fdOpenDev nodes (devPoint ++ slash :: n)).isSome = true ↔ n ∈ nodes.map DevfsNode.name := by
  have rest : (devPoint ++ slash :: n).drop 5 = n := rfl
  unfold fdOpenDev devfsOpen
  rw [rest, if_neg ne, Option.isSome_map, List.find?_isSome, List.mem_map]
  simp only [beq_iff_eq]

/-- The VFS looks for the name with a slash in front of it. -/
theorem DevMounted.getattr (v : Vfs σ) (at_ : DevMounted v.mounts dev nodes)
    (well : WellMounted v.mounts) {n : CString} (ne : n ≠ []) :
    (∃ a, vfsGetattr v (devPoint ++ slash :: n) = some a ∧ a.mode = 0o666) ↔
      slash :: n ∈ (nodes v.store).map DevfsNode.name := by
  have attr : vfsGetattr v (devPoint ++ slash :: n) = devfsOpGetattr (nodes v.store) (slash :: n) := by
    rw [vfsGetattr, (at_.find well n).1]
    dsimp only
    rw [at_.ops]
    rfl
  have other : ¬ (slash :: n = [slash] ∨ slash :: n = []) := by simp [ne]
  rw [attr, devfsOpGetattr, if_neg other]
  simp only [List.any_eq_true, beq_iff_eq, List.mem_map]
  split
  next found => exact iff_of_true ⟨_, rfl, rfl⟩ found
  next none => exact iff_of_false (by rintro ⟨a, eq, -⟩; cases eq) none

/-- Without devices nothing is listed. -/
theorem DevMounted.listing_nil {who : Identity} {v : Vfs σ} (at_ : DevMounted v.mounts dev nodes)
    (well : WellMounted v.mounts) (none_ : nodes v.store = []) (maxEntries : Nat) :
    (vfsListDir who v devPoint true maxEntries).1.out = [] := by
  have children : ∀ m ∈ v.mounts, vfsExtractMountChild devPoint m.mountPoint = none := by
    intro m mem
    have away := at_.alone m mem
    unfold vfsExtractMountChild
    split
    · rfl
    · dsimp only
      rw [if_neg (by decide), if_neg, Option.bind_none]
      rintro ⟨front, next⟩
      obtain ⟨rest, eq⟩ := List.isPrefixOf_iff_prefix.1 front
      rw [← eq, List.drop_left] at next
      cases rest with
      | nil => cases next
      | cons c rest =>
          obtain rfl := Option.some.inj next
          exact away ⟨rest, by rw [← eq]; simp⟩
  have fold : ∀ (ms : List (Mount σ)) (acc : List VfsDirent × Nat),
      (∀ m ∈ ms, vfsExtractMountChild devPoint m.mountPoint = none) →
      ms.foldl (mergeMountChild devPoint true maxEntries) acc = acc := by
    intro ms
    induction ms with
    | nil => exact fun acc _ => rfl
    | cons m ms ih =>
        intro acc away
        rw [List.foldl_cons, mergeMountChild, away m List.mem_cons_self]
        exact ih acc fun k mem => away k (List.mem_cons_of_mem m mem)
  have empty : devfsOpListDir (nodes v.store) [slash] true maxEntries = ⟨0, some 0, []⟩ := by
    rw [none_]
    rfl
  have ops : dev.ops.listDir = some fun st path out maxEntries =>
      devfsOpListDir (nodes st) path out maxEntries := by
    rw [at_.ops]
    rfl
  rw [vfsListDir_listed (at_.find well []).2 ops (by rw [empty])]
  dsimp only
  rw [empty, fold _ _ children]

/-- **The ways to the devices agree exactly as long as there is no device.** -/
theorem device_namespace_iff (who : Identity) {v : Vfs σ} (at_ : DevMounted v.mounts dev nodes)
    (well : WellMounted v.mounts) : DevicesAgree who v (nodes v.store) ↔ nodes v.store = [] := by
  constructor
  · intro agree
    by_contra some_
    -- the longest name, of which the VFS asks for a longer one
    cases longest : ((nodes v.store).map DevfsNode.name).argmax List.length with
    | none => exact some_ (List.map_eq_nil_iff.1 (List.argmax_eq_none.1 longest))
    | some n =>
        have mem := List.argmax_mem longest
        have ne : n ≠ [] := by
          obtain ⟨node, -, rfl⟩ := List.mem_map.1 mem
          exact node.named
        have opens := (fdOpenDev_isSome (nodes v.store) ne).2 mem
        have there := (at_.getattr v well ne).1 ((agree.getattr n ne).1 opens)
        have le := List.le_of_mem_argmax there longest
        rw [List.length_cons] at le
        omega
  · intro none_
    have opens : ∀ n, n ≠ [] →
        ¬ (fdOpenDev (nodes v.store) (devPoint ++ slash :: n)).isSome = true := fun n ne opened => by
      have mem := (fdOpenDev_isSome (nodes v.store) ne).1 opened
      rw [none_] at mem
      cases mem
    refine ⟨fun n ne => iff_of_false (opens n ne) fun attr => ?_,
      fun n ne => iff_of_false (opens n ne) ?_, fun n => iff_of_false ?_ ?_⟩
    · have mem := (at_.getattr v well ne).1 attr
      rw [none_] at mem
      cases mem
    · have exists_ : vfsExists v (devPoint ++ slash :: n) =
        devfsOpExists (nodes v.store) (slash :: n) := by
        rw [vfsExists, (at_.find well n).1]
        dsimp only
        rw [at_.ops]
        rfl
      rw [exists_, devfsOpExists, if_neg (by simp [ne]), none_]
      exact Int.lt_irrefl 0
    · have dirs : ∀ dir, DevDir who v dir → dir = devPoint := by
        intro dir reached
        induction reached with
        | root => rfl
        | sub maxEntries above listed isDir ih =>
            rw [ih, at_.listing_nil well none_] at listed
            cases listed
      rintro ⟨dir, e, maxEntries, reached, listed, -⟩
      rw [dirs dir reached, at_.listing_nil well none_] at listed
      cases listed
    · rw [none_]
      exact List.not_mem_nil

end Namespace

/-- The mounts of a system: a RAM filesystem without operations, and devfs. -/
def devMounts : List (Mount (List (DevfsNode Unit))) :=
  mountTable [⟨[slash], .ramfs, ⟨⟨none, none, none, none, none, none, none, none⟩, none, none, none⟩⟩,
    ⟨devPoint, .devfs, devfsOps id⟩]

theorem devMounts_proper : WellMounted devMounts := by
  refine mountTable_wellMounted fun m mem => ?_
  rcases List.mem_pair.1 mem with rfl | rfl
  · exact ⟨rfl, .inl rfl⟩
  · exact ⟨rfl, .inr (by decide)⟩

theorem devMounts_dev : DevMounted devMounts ⟨devPoint, .devfs, devfsOps id⟩ id := by
  refine ⟨List.mem_cons_of_mem _ (List.mem_singleton_self _), rfl, rfl, fun m mem => ?_⟩
  have both : m ∈ [_, _] := mem
  rcases List.mem_pair.1 both with rfl | rfl <;> decide

/-- Without devices they agree. -/
theorem device_namespace_empty :
    DevicesAgree ⟨0, 0⟩ ⟨devMounts, [], []⟩ ([] : List (DevfsNode Unit)) :=
  (device_namespace_iff ⟨0, 0⟩ (v := ⟨devMounts, [], []⟩) devMounts_dev devMounts_proper).2 rfl

/-- Once `null` is registered `fd_open` finds it and the VFS does not. -/
theorem device_namespace_null : ¬ ∀ (who : Identity) (v : Vfs (List (DevfsNode Unit)))
    (dev : Mount (List (DevfsNode Unit))), WellMounted v.mounts → DevMounted v.mounts dev id →
      DevicesAgree who v v.store := by
  intro always
  let nodes := (devfsAddNode [] [0x6E, 0x75, 0x6C, 0x6C] ()).2
  have agree := always ⟨0, 0⟩ ⟨devMounts, nodes, []⟩ _ devMounts_proper devMounts_dev
  have empty := (device_namespace_iff ⟨0, 0⟩ (v := ⟨devMounts, nodes, []⟩) devMounts_dev
    devMounts_proper).1 agree
  cases empty

end NTux.Fs
