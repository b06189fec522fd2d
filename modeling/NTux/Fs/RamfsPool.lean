import NTux.Fs.VfsLayer
import NTux.Lib.Regions

/-!
# The contents of the RAM filesystem

File contents lie in one pool.  A write carves a new region off its free end, or reuses
the region of the file where that is large enough; regions are never given back.
`PoolOk` says that the regions of the files in use lie inside the used part of the pool
and that no two of them overlap.

A run is tracked with what was written to each node last (`trackedStep`).  Every
operation keeps the pool in order and the contents equal to what was written last,
whatever slots are reused and wherever files are moved (`ramfs_contents_along_run`).
-/

namespace NTux.Fs

open NTux.Lib

/-- The node is a file in use. -/
def Ramfs.Live (fs : Ramfs) (i : Nat) : Prop :=
  (fs.nodes i).used = true ∧ (fs.nodes i).type = .file

/-- The part of the pool that a node has, from `off` on. -/
def RamfsNode.region (n : RamfsNode) (off : Nat) : Region := ⟨off, off + n.capacity⟩

/-- The regions of the nodes in use are apart and inside the used part of the pool. -/
structure PoolOk (fs : Ramfs) : Prop where
  bound : fs.filePoolUsed ≤ ramfsMaxFileBytes
  blank : ∀ i, (fs.nodes i).used = true → (fs.nodes i).data = none →
    (fs.nodes i).size = 0 ∧ (fs.nodes i).capacity = 0
  inside : ∀ i off, (fs.nodes i).used = true → (fs.nodes i).data = some off →
    (fs.nodes i).size ≤ (fs.nodes i).capacity ∧ off + (fs.nodes i).capacity ≤ fs.filePoolUsed
  apart : ∀ i j off off', (fs.nodes i).used = true → (fs.nodes j).used = true → i ≠ j →
    (fs.nodes i).data = some off → (fs.nodes j).data = some off' →
    ((fs.nodes i).region off).Apart ((fs.nodes j).region off')

/-! ## Operations on the tree -/

/-- The nodes in use stay in use and keep their contents, and new ones have none. -/
structure Grows (fs fs' : Ramfs) : Prop where
  pool : fs'.filePool = fs.filePool
  poolUsed : fs'.filePoolUsed = fs.filePoolUsed
  used : ∀ i, (fs.nodes i).used = true → (fs'.nodes i).used = true
  type : ∀ i, (fs.nodes i).used = true → (fs'.nodes i).type = (fs.nodes i).type
  kept : ∀ i, (fs.nodes i).used = true → (fs'.nodes i).data = (fs.nodes i).data ∧
    (fs'.nodes i).size = (fs.nodes i).size ∧ (fs'.nodes i).capacity = (fs.nodes i).capacity
  new : ∀ i, (fs.nodes i).used = false → (fs'.nodes i).used = true →
    (fs'.nodes i).data = none ∧ (fs'.nodes i).size = 0 ∧ (fs'.nodes i).capacity = 0

namespace Grows

variable {fs fs' fs'' : Ramfs}

theorem refl (fs : Ramfs) : Grows fs fs :=
  ⟨rfl, rfl, fun _ used => used, fun _ _ => rfl, fun _ _ => ⟨rfl, rfl, rfl⟩,
    fun i unused used => absurd (unused.symm.trans used) (by simp)⟩

theorem trans (first : Grows fs fs') (second : Grows fs' fs'') : Grows fs fs'' := by
  refine ⟨second.pool.trans first.pool, second.poolUsed.trans first.poolUsed,
    fun i used => second.used i (first.used i used),
    fun i used => (second.type i (first.used i used)).trans (first.type i used),
    fun i used => ?_, fun i unused used => ?_⟩
  · obtain ⟨data, size, capacity⟩ := first.kept i used
    obtain ⟨data', size', capacity'⟩ := second.kept i (first.used i used)
    exact ⟨data'.trans data, size'.trans size, capacity'.trans capacity⟩
  · cases mid : (fs'.nodes i).used with
    | true =>
        obtain ⟨data, size, capacity⟩ := first.new i unused mid
        obtain ⟨data', size', capacity'⟩ := second.kept i mid
        exact ⟨data'.trans data, size'.trans size, capacity'.trans capacity⟩
    | false => exact second.new i mid used

/-- A change to a node that keeps its use, its type and its content. -/
theorem setNode (i : Nat) {n : RamfsNode} (used : n.used = (fs.nodes i).used)
    (type : n.type = (fs.nodes i).type)
    (kept : n.data = (fs.nodes i).data ∧ n.size = (fs.nodes i).size ∧
      n.capacity = (fs.nodes i).capacity) : Grows fs (fs.setNode i n) := by
  refine ⟨rfl, rfl, fun j usedJ => ?_, fun j usedJ => ?_, fun j usedJ => ?_,
    fun j unused usedJ => ?_⟩
  all_goals
    rcases eq_or_ne j i with rfl | ne
  · rwa [Ramfs.setNode_nodes_self, used]
  · rwa [Ramfs.setNode_nodes_of_ne _ _ ne]
  · rw [Ramfs.setNode_nodes_self, type]
  · rw [Ramfs.setNode_nodes_of_ne _ _ ne]
  · rwa [Ramfs.setNode_nodes_self]
  · rw [Ramfs.setNode_nodes_of_ne _ _ ne]
    exact ⟨rfl, rfl, rfl⟩
  · rw [Ramfs.setNode_nodes_self, used, unused] at usedJ
    exact absurd usedJ (by simp)
  · rw [Ramfs.setNode_nodes_of_ne _ _ ne, unused] at usedJ
    exact absurd usedJ (by simp)

/-- A node that was not in use is taken, without content. -/
theorem take {i : Nat} {n : RamfsNode} (unused : (fs.nodes i).used = false)
    (blank : n.data = none ∧ n.size = 0 ∧ n.capacity = 0) : Grows fs (fs.setNode i n) := by
  have ne : ∀ j, (fs.nodes j).used = true → j ≠ i := by
    rintro j used rfl
    exact absurd (unused.symm.trans used) (by simp)
  refine ⟨rfl, rfl, fun j used => ?_, fun j used => ?_, fun j used => ?_, fun j unusedJ used => ?_⟩
  · rwa [Ramfs.setNode_nodes_of_ne _ _ (ne j used)]
  · rw [Ramfs.setNode_nodes_of_ne _ _ (ne j used)]
  · rw [Ramfs.setNode_nodes_of_ne _ _ (ne j used)]
    exact ⟨rfl, rfl, rfl⟩
  · rcases eq_or_ne j i with rfl | neJ
    · rwa [Ramfs.setNode_nodes_self]
    · rw [Ramfs.setNode_nodes_of_ne _ _ neJ, unusedJ] at used
      exact absurd used (by simp)

/-- The regions stay where they are. -/
theorem poolOk (grows : Grows fs fs') (ok : PoolOk fs) : PoolOk fs' := by
  -- a node with a region was in use before, with the same region
  have old : ∀ i off, (fs'.nodes i).used = true → (fs'.nodes i).data = some off →
      (fs.nodes i).used = true := by
    intro i off used data
    by_contra unused
    rw [(grows.new i (by simpa using unused) used).1] at data
    exact absurd data (by simp)
  refine ⟨grows.poolUsed ▸ ok.bound, fun i used none => ?_, fun i off used data => ?_,
    fun i j off off' usedI usedJ ne dataI dataJ => ?_⟩
  · cases before : (fs.nodes i).used with
    | true =>
        obtain ⟨data, size, capacity⟩ := grows.kept i before
        rw [size, capacity]
        exact ok.blank i before (data.symm.trans none)
    | false => exact (grows.new i before used).2
  · have before := old i off used data
    obtain ⟨same, size, capacity⟩ := grows.kept i before
    rw [size, capacity, grows.poolUsed]
    exact ok.inside i off before (same.symm.trans data)
  · have beforeI := old i off usedI dataI
    have beforeJ := old j off' usedJ dataJ
    obtain ⟨sameI, -, capacityI⟩ := grows.kept i beforeI
    obtain ⟨sameJ, -, capacityJ⟩ := grows.kept j beforeJ
    rw [RamfsNode.region, RamfsNode.region, capacityI, capacityJ]
    exact ok.apart i j off off' beforeI beforeJ ne (sameI.symm.trans dataI)
      (sameJ.symm.trans dataJ)

theorem content (grows : Grows fs fs') {i : Nat} (used : (fs.nodes i).used = true) :
    ramfsContent fs' (fs'.nodes i) = ramfsContent fs (fs.nodes i) := by
  obtain ⟨data, size, -⟩ := grows.kept i used
  rw [ramfsContent, ramfsContent, data, size, grows.pool]

theorem content_new (grows : Grows fs fs') {i : Nat} (unused : (fs.nodes i).used = false)
    (used : (fs'.nodes i).used = true) : ramfsContent fs' (fs'.nodes i) = [] := by
  rw [ramfsContent, (grows.new i unused used).1]

end Grows

section Growth

variable {fs fs' : Ramfs} {p idx : Nat} {name : CString}

theorem ramfsCreateChild_grows {type : RamfsNodeType}
    (ok : ramfsCreateChild fs p name type = .ok (idx, fs')) :
    Grows fs fs' ∧ (fs.nodes idx).used = false ∧ (fs'.nodes idx).used = true ∧
      (fs'.nodes idx).type = type := by
  obtain ⟨-, -, unused, rfl⟩ := ramfsCreateChild_ok ok
  have taken : Grows fs (fs.setNode idx { RamfsNode.zero with
      used := true, type := type, parent := p, name := ramfsCopyName name }) :=
    .take unused ⟨rfl, rfl, rfl⟩
  refine ⟨taken.trans (.setNode p rfl rfl ⟨rfl, rfl, rfl⟩), unused, ?_⟩
  rcases eq_or_ne idx p with rfl | ne
  · simp [RamfsNode.addChild]
  · rw [Ramfs.setNode_nodes_of_ne _ _ ne]
    simp

/-- Creating a child makes one new node. -/
theorem ramfsCreateChild_new {type : RamfsNodeType} {i : Nat}
    (ok : ramfsCreateChild fs p name type = .ok (idx, fs')) (unused : (fs.nodes i).used = false)
    (used : (fs'.nodes i).used = true) : i = idx := by
  by_contra ne
  obtain ⟨-, -, -, rfl⟩ := ramfsCreateChild_ok ok
  rcases eq_or_ne i p with rfl | neP
  · simp [RamfsNode.addChild, Ramfs.setNode_nodes_of_ne _ _ ne, unused] at used
  · simp [Ramfs.setNode_nodes_of_ne _ _ neP, Ramfs.setNode_nodes_of_ne _ _ ne, unused] at used

theorem ramfsStamp_grows (fs : Ramfs) (node mode uid : Nat) :
    Grows fs (ramfsStamp fs node mode uid) :=
  .setNode node rfl rfl ⟨rfl, rfl, rfl⟩

theorem ramfsResolveLoop_grows {createDirs : Bool} {rest : List CString} {cur : Nat}
    {tok : CString} : Grows fs (ramfsResolveLoop createDirs fs cur tok rest).fs := by
  induction rest generalizing fs cur tok with
  | nil => exact .refl fs
  | cons next rest ih =>
      rw [ramfsResolveLoop]
      cases child : ramfsFindChild fs cur tok with
      | some c =>
          by_cases dirC : (fs.nodes c).type = .dir
          · simpa [dirC] using ih
          · simpa [dirC] using Grows.refl fs
      | none =>
          cases createDirs with
          | false => simpa using Grows.refl fs
          | true =>
              cases create : ramfsCreateChild fs cur tok .dir with
              | error e => simpa [create] using Grows.refl fs
              | ok made =>
                  have grown := (ramfsCreateChild_grows create).1
                  by_cases dirC : (made.2.nodes made.1).type = .dir
                  · simpa [create, dirC] using grown.trans ih
                  · simpa [create, dirC] using grown

theorem ramfsResolve_grows (fs : Ramfs) (path : CString) (createDirs : Bool) :
    Grows fs (ramfsResolve fs path createDirs).fs := by
  rw [ramfsResolve]
  split
  · exact .refl fs
  · split
    · exact .refl fs
    · exact ramfsResolveLoop_grows

theorem ramfsDetachChild_grows {child : Nat} (ok : ramfsDetachChild fs p child = some fs') :
    Grows fs fs' := by
  simp only [ramfsDetachChild, Option.map_eq_some_iff] at ok
  obtain ⟨i, -, rfl⟩ := ok
  exact .setNode p rfl rfl ⟨rfl, rfl, rfl⟩

theorem ramfsOpMkdir_grows (uid : Nat) (fs : Ramfs) (path : CString) (mode : Nat) :
    Grows fs (ramfsOpMkdir uid fs path mode).2 := by
  have resolved := ramfsResolve_grows fs path true
  unfold ramfsOpMkdir
  dsimp only
  split
  · split <;> exact resolved
  · split
    next made =>
      exact (resolved.trans (ramfsCreateChild_grows made).1).trans (ramfsStamp_grows _ _ _ _)
    · exact resolved
  · exact resolved

theorem ramfsOpRename_grows (fs : Ramfs) (oldPath newPath : CString) :
    Grows fs (ramfsOpRename fs oldPath newPath).2 := by
  unfold ramfsOpRename
  split
  · exact .refl fs
  split
  · exact .refl fs
  dsimp only
  split
  next node oldParent newParent _ _ _ _ _ =>
    split
    · split
      · exact .refl fs
      next fs₁ detach =>
        have detached := ramfsDetachChild_grows detach
        split
        · exact detached
        · have attached : Grows fs₁ (fs₁.setNode newParent ((fs₁.nodes newParent).addChild node)) :=
            .setNode newParent rfl rfl ⟨rfl, rfl, rfl⟩
          exact (detached.trans attached).trans (.setNode node rfl rfl ⟨rfl, rfl, rfl⟩)
    · exact .setNode node rfl rfl ⟨rfl, rfl, rfl⟩
  · exact .refl fs

end Growth

/-! ## Writing -/

section Write

variable {fs : Ramfs} {node : Nat} {data : List UInt8}

/-- What lies apart from the bytes written is not changed. -/
theorem ramfsPoolWrite_apart {dst : Nat} {r : Region} (apart : r.Apart ⟨dst, dst + data.length⟩)
    {x : Nat} (mem : x ∈ r.cells) : (ramfsPoolWrite fs dst data).filePool x = fs.filePool x := by
  have off := apart.not_mem mem
  refine dif_neg fun inside => off ?_
  exact ⟨inside.1, by have := inside.2; show x < dst + data.length; omega⟩

theorem ramfsPoolWrite_content (dst : Nat) :
    ((List.range data.length).map fun i => (ramfsPoolWrite fs dst data).filePool (dst + i)) =
      data := by
  refine List.ext_getElem (by simp) fun i lt _ => ?_
  have ltData : i < data.length := by simpa using lt
  have inside : dst ≤ dst + i ∧ dst + i - dst < data.length := by omega
  simp only [List.getElem_map, List.getElem_range, ramfsPoolWrite, dif_pos inside]
  simp

/-- Store `data` at `dst` as the content of a node: the node `ramfs_op_create_file` writes
back. -/
def installed (fs : Ramfs) (node dst : Nat) (data : List UInt8) : Ramfs :=
  (ramfsPoolWrite fs dst data).setNode node
    { fs.nodes node with data := some dst, size := data.length, capacity := data.length }

theorem installed_nodes_self (dst : Nat) : (installed fs node dst data).nodes node =
    { fs.nodes node with data := some dst, size := data.length, capacity := data.length } :=
  Ramfs.setNode_nodes_self ..

theorem installed_nodes_of_ne {i : Nat} (dst : Nat) (ne : i ≠ node) :
    (installed fs node dst data).nodes i = fs.nodes i :=
  Ramfs.setNode_nodes_of_ne _ _ ne

theorem installed_content (dst : Nat) :
    ramfsContent (installed fs node dst data) ((installed fs node dst data).nodes node) = data := by
  rw [installed_nodes_self]
  exact ramfsPoolWrite_content dst

/-- The bytes are put where no other node in use has its region. -/
structure Place (fs : Ramfs) (node dst len : Nat) : Prop where
  inside : dst + len ≤ fs.filePoolUsed
  apart : ∀ i off, i ≠ node → (fs.nodes i).used = true → (fs.nodes i).data = some off →
    ((fs.nodes i).region off).Apart ⟨dst, dst + len⟩

theorem installed_poolOk {dst : Nat} (ok : PoolOk fs) (place : Place fs node dst data.length) :
    PoolOk (installed fs node dst data) := by
  refine ⟨ok.bound, fun i used none => ?_, fun i off used dataI => ?_,
    fun i j off off' usedI usedJ ne dataI dataJ => ?_⟩
  · rcases eq_or_ne i node with rfl | neI
    · rw [installed_nodes_self] at none
      exact absurd none (by simp)
    · rw [installed_nodes_of_ne dst neI] at used none ⊢
      exact ok.blank i used none
  · rcases eq_or_ne i node with rfl | neI
    · rw [installed_nodes_self] at dataI ⊢
      obtain rfl := Option.some.inj dataI
      exact ⟨Nat.le_refl _, place.inside⟩
    · rw [installed_nodes_of_ne dst neI] at used dataI ⊢
      exact ok.inside i off used dataI
  · rcases eq_or_ne i node with rfl | neI
    · rw [installed_nodes_of_ne dst ne.symm] at usedJ dataJ ⊢
      rw [installed_nodes_self] at dataI ⊢
      obtain rfl := Option.some.inj dataI
      exact (place.apart j off' ne.symm usedJ dataJ).symm
    · rw [installed_nodes_of_ne dst neI] at usedI dataI ⊢
      rcases eq_or_ne j node with rfl | neJ
      · rw [installed_nodes_self] at dataJ ⊢
        obtain rfl := Option.some.inj dataJ
        exact place.apart i off neI usedI dataI
      · rw [installed_nodes_of_ne dst neJ] at usedJ dataJ ⊢
        exact ok.apart i j off off' usedI usedJ ne dataI dataJ

/-- The other files keep their bytes. -/
theorem installed_content_of_ne {dst i : Nat} (ok : PoolOk fs)
    (place : Place fs node dst data.length) (ne : i ≠ node) (used : (fs.nodes i).used = true) :
    ramfsContent (installed fs node dst data) ((installed fs node dst data).nodes i) =
      ramfsContent fs (fs.nodes i) := by
  rw [installed_nodes_of_ne dst ne]
  unfold ramfsContent
  cases dataI : (fs.nodes i).data with
  | none => rfl
  | some off =>
      refine List.map_congr_left fun k mem => ?_
      have lt := List.mem_range.1 mem
      have room := (ok.inside i off used dataI).1
      refine ramfsPoolWrite_apart (place.apart i off ne used dataI) ⟨Nat.le_add_right off k, ?_⟩
      show off + k < off + (fs.nodes i).capacity
      omega

/-- What a write does to the filesystem: nothing when it fails, and otherwise it stores
its bytes and leaves everything else alone. -/
structure Stores (fs fs' : Ramfs) (node : Nat) (data : List UInt8) : Prop where
  poolOk : PoolOk fs'
  used : ∀ i, (fs'.nodes i).used = (fs.nodes i).used
  content : ramfsContent fs' (fs'.nodes node) = data
  others : ∀ i, i ≠ node → (fs.nodes i).used = true →
    ramfsContent fs' (fs'.nodes i) = ramfsContent fs (fs.nodes i)

theorem installed_stores {fs₁ : Ramfs} {dst : Nat} (nodes : fs₁.nodes = fs.nodes)
    (pool : fs₁.filePool = fs.filePool) (ok : PoolOk fs₁)
    (place : Place fs₁ node dst data.length) : Stores fs (installed fs₁ node dst data) node data := by
  refine ⟨installed_poolOk ok place, fun i => ?_, installed_content dst, fun i ne used => ?_⟩
  · rcases eq_or_ne i node with rfl | ne
    · rw [installed_nodes_self, nodes]
    · rw [installed_nodes_of_ne dst ne, nodes]
  · rw [← nodes] at used
    rw [installed_content_of_ne ok place ne used, ramfsContent, ramfsContent, nodes, pool]

/-- Truncating to nothing gives up the region. -/
theorem truncate_stores (ok : PoolOk fs) (node : Nat) :
    Stores fs (fs.setNode node { fs.nodes node with data := none, size := 0, capacity := 0 })
      node [] := by
  have self : ∀ i, i = node →
      (fs.setNode node { fs.nodes node with data := none, size := 0, capacity := 0 }).nodes i =
        { fs.nodes node with data := none, size := 0, capacity := 0 } := by
    rintro i rfl
    exact Ramfs.setNode_nodes_self ..
  have other : ∀ i, i ≠ node →
      (fs.setNode node { fs.nodes node with data := none, size := 0, capacity := 0 }).nodes i =
        fs.nodes i := fun i ne => Ramfs.setNode_nodes_of_ne _ _ ne
  refine ⟨⟨ok.bound, fun i used none => ?_, fun i off used dataI => ?_,
    fun i j off off' usedI usedJ ne dataI dataJ => ?_⟩, fun i => ?_, ?_, fun i ne used => ?_⟩
  · rcases eq_or_ne i node with same | ne
    · rw [self i same]
      exact ⟨rfl, rfl⟩
    · rw [other i ne] at used none ⊢
      exact ok.blank i used none
  · rcases eq_or_ne i node with same | ne
    · rw [self i same] at dataI
      exact absurd dataI (by simp)
    · rw [other i ne] at used dataI ⊢
      exact ok.inside i off used dataI
  · rcases eq_or_ne i node with same | neI
    · rw [self i same] at dataI
      exact absurd dataI (by simp)
    · rcases eq_or_ne j node with same | neJ
      · rw [self j same] at dataJ
        exact absurd dataJ (by simp)
      · rw [other i neI] at usedI dataI ⊢
        rw [other j neJ] at usedJ dataJ ⊢
        exact ok.apart i j off off' usedI usedJ ne dataI dataJ
  · rcases eq_or_ne i node with same | ne
    · rw [self i same, same]
    · rw [other i ne]
  · rw [self node rfl]
    rfl
  · rw [other i ne]
    rfl

theorem ramfsStoreContent_spec (ok : PoolOk fs) (used : (fs.nodes node).used = true)
    (data : List UInt8) :
    ((ramfsStoreContent fs node data).1 ≠ 0 ∧ (ramfsStoreContent fs node data).2 = fs) ∨
      ((ramfsStoreContent fs node data).1 = 0 ∧ (fs.nodes node).type = .file ∧
        Stores fs (ramfsStoreContent fs node data).2 node data) := by
  unfold ramfsStoreContent
  dsimp only
  split
  · exact .inl ⟨by simp, rfl⟩
  next file =>
    have isFile := not_not.1 file
    split
    next empty =>
      rw [List.length_eq_zero_iff] at empty
      subst empty
      exact .inr ⟨rfl, isFile, truncate_stores ok node⟩
    next some_ =>
      split
      · exact .inl ⟨by simp, rfl⟩
      next dst fs₁ found =>
        refine .inr ⟨rfl, isFile, ?_⟩
        split at found
        next fits =>
          -- the old region is large enough, and is used from its start
          obtain ⟨off, dataN, same⟩ := Option.map_eq_some_iff.1 found
          obtain ⟨rfl, rfl⟩ := Prod.mk.inj same
          obtain ⟨-, inside⟩ := ok.inside node off used dataN
          refine installed_stores rfl rfl ok ⟨by omega, fun i off' ne usedI dataI => ?_⟩
          refine ((ok.apart node i off off' used usedI ne.symm dataN dataI).mono ?_).symm
          intro x mem
          exact ⟨mem.1, by have := mem.2; show x < off + (fs.nodes node).capacity; simp at this; omega⟩
        next =>
          unfold ramfsAllocBytes at found
          rw [if_neg some_] at found
          split at found
          · exact absurd found (by simp)
          next room =>
            obtain ⟨rfl, rfl⟩ := Prod.mk.inj (Option.some.inj found)
            let fs₁ : Ramfs := { fs with filePoolUsed := fs.filePoolUsed + data.length }
            have carved : PoolOk fs₁ := by
              refine ⟨Nat.le_of_not_lt room, ok.blank, fun i off usedI dataI => ?_, ok.apart⟩
              obtain ⟨size, inside⟩ := ok.inside i off usedI dataI
              exact ⟨size, Nat.le_trans inside (Nat.le_add_right _ _)⟩
            have nodes : fs₁.nodes = fs.nodes := rfl
            refine installed_stores nodes rfl carved
              ⟨Nat.le_refl _, fun i off _ usedI dataI => ?_⟩
            -- everything in use lies below the old end of the pool
            obtain ⟨-, inside⟩ := ok.inside i off usedI dataI
            rw [Region.apart_iff]
            show min (off + (fs.nodes i).capacity) (fs.filePoolUsed + data.length) ≤
              max off fs.filePoolUsed
            omega

end Write

/-! ## Resolving, with and without creating -/

section Resolve

variable {fs fs' : Ramfs} {cur n : Nat} {tok path : CString} {rest : List CString}

/-- The directories made on the way have no children, so the loop does not come out of
them with a node. -/
theorem ramfsResolveLoop_empty (used : (fs.nodes cur).used = true)
    (empty : (fs.nodes cur).entries = []) :
    (ramfsResolveLoop true fs cur tok rest).node ≠ .ok n := by
  induction rest generalizing fs cur tok with
  | nil => simp [ramfsResolveLoop, ramfsFindChild, empty]
  | cons next rest ih =>
      have absent : ramfsFindChild fs cur tok = none := by simp [ramfsFindChild, empty]
      rw [ramfsResolveLoop, absent]
      cases create : ramfsCreateChild fs cur tok .dir with
      | error e => simp
      | ok made =>
          obtain ⟨idx, fs'⟩ := made
          have usedIdx := (ramfsCreateChild_grows create).2.2.1
          obtain ⟨-, -, unused, rfl⟩ := ramfsCreateChild_ok create
          have ne : idx ≠ cur := by
            rintro rfl
            exact absurd (unused.symm.trans used) (by simp)
          simp only [if_true]
          split
          · refine ih usedIdx ?_
            rw [Ramfs.setNode_nodes_of_ne _ _ ne, Ramfs.setNode_nodes_self]
            rfl
          · simp

/-- A node that is found with `create_dirs` was there, and nothing was created. -/
theorem ramfsResolveLoop_found (used : (fs.nodes cur).used = true)
    (found : (ramfsResolveLoop true fs cur tok rest).node = .ok n) :
    (ramfsResolveLoop true fs cur tok rest).fs = fs ∧
      (ramfsResolveLoop false fs cur tok rest).node = .ok n ∧ (fs.nodes n).used = true := by
  induction rest generalizing fs cur tok with
  | nil =>
      refine ⟨rfl, found, ?_⟩
      simp only [ramfsResolveLoop] at found
      split at found
      next c child =>
        obtain rfl := Except.ok.inj found
        exact (ramfsFindChild_eq_some child).2.1
      · exact absurd found (by simp)
  | cons next rest ih =>
      rw [ramfsResolveLoop] at found ⊢
      rw [ramfsResolveLoop]
      cases child : ramfsFindChild fs cur tok with
      | some c =>
          simp only [child] at found ⊢
          split at found
          next dir =>
            simp only [if_pos dir]
            exact ih (ramfsFindChild_eq_some child).2.1 found
          · exact absurd found (by simp)
      | none =>
          simp only [child, if_true] at found
          cases create : ramfsCreateChild fs cur tok .dir with
          | error e => simp [create] at found
          | ok made =>
              obtain ⟨idx, fs'⟩ := made
              have usedIdx := (ramfsCreateChild_grows create).2.2.1
              simp only [create] at found
              split at found
              · obtain ⟨-, -, unused, rfl⟩ := ramfsCreateChild_ok create
                have ne : idx ≠ cur := by
                  rintro rfl
                  exact absurd (unused.symm.trans used) (by simp)
                refine absurd found (ramfsResolveLoop_empty usedIdx ?_)
                rw [Ramfs.setNode_nodes_of_ne _ _ ne, Ramfs.setNode_nodes_self]
                rfl
              · exact absurd found (by simp)

theorem ramfsResolve_found (used : (fs.nodes fs.rootIndex).used = true)
    (found : (ramfsResolve fs path true).node = .ok n) :
    (ramfsResolve fs path true).fs = fs ∧ (ramfsResolve fs path false).node = .ok n ∧
      (fs.nodes n).used = true := by
  unfold ramfsResolve at found ⊢
  split at found
  · exact absurd found (by simp)
  next absolute =>
    rw [if_neg absolute, if_neg absolute]
    cases tokens : ramfsPathTokens path with
    | nil =>
        simp only [tokens] at found
        obtain rfl := Except.ok.inj found
        exact ⟨rfl, rfl, used⟩
    | cons tok rest =>
        simp only [tokens] at found ⊢
        exact ramfsResolveLoop_found used found

/-- What is found without creating is found with it. -/
theorem ramfsResolveLoop_finds (found : (ramfsResolveLoop false fs cur tok rest).node = .ok n) :
    ramfsResolveLoop true fs cur tok rest = ramfsResolveLoop false fs cur tok rest := by
  induction rest generalizing cur tok with
  | nil => rfl
  | cons next rest ih =>
      rw [ramfsResolveLoop] at found
      rw [ramfsResolveLoop, ramfsResolveLoop]
      cases child : ramfsFindChild fs cur tok with
      | some c =>
          simp only [child] at found ⊢
          split at found
          next dir =>
            simp only [if_pos dir]
            exact ih found
          · exact absurd found (by simp)
      | none => simp [child] at found

theorem ramfsResolve_finds (found : (ramfsResolve fs path false).node = .ok n) :
    ramfsResolve fs path true = ramfsResolve fs path false := by
  unfold ramfsResolve at found ⊢
  split at found
  · exact absurd found (by simp)
  next absolute =>
    rw [if_neg absolute, if_neg absolute]
    cases tokens : ramfsPathTokens path with
    | nil => rfl
    | cons tok rest =>
        simp only [tokens] at found ⊢
        exact ramfsResolveLoop_finds found

/-- Whatever a resolution creates is a directory. -/
theorem ramfsResolveLoop_new {createDirs : Bool} {i : Nat} (unused : (fs.nodes i).used = false)
    (used : ((ramfsResolveLoop createDirs fs cur tok rest).fs.nodes i).used = true) :
    ((ramfsResolveLoop createDirs fs cur tok rest).fs.nodes i).type = .dir := by
  induction rest generalizing fs cur tok with
  | nil => exact absurd (unused.symm.trans used) (by simp)
  | cons next rest ih =>
      have same : ¬ (fs.nodes i).used = true := by simp [unused]
      rw [ramfsResolveLoop] at used ⊢
      cases child : ramfsFindChild fs cur tok with
      | some c =>
          simp only [child] at used ⊢
          split at used
          next dir =>
            rw [if_pos dir]
            exact ih unused used
          · exact absurd used same
      | none =>
          simp only [child] at used ⊢
          cases createDirs with
          | false => exact absurd used same
          | true =>
              simp only [if_true] at used ⊢
              cases create : ramfsCreateChild fs cur tok .dir with
              | error e =>
                  simp only [create] at used
                  exact absurd used same
              | ok made =>
                  obtain ⟨idx, fs'⟩ := made
                  obtain ⟨grows, -, usedIdx, typeIdx⟩ := ramfsCreateChild_grows create
                  simp only [create, if_pos typeIdx] at used ⊢
                  cases mid : (fs'.nodes i).used with
                  | false => exact ih mid used
                  | true =>
                      obtain rfl := ramfsCreateChild_new create unused mid
                      rw [ramfsResolveLoop_grows.type i usedIdx, typeIdx]

theorem ramfsResolve_new {createDirs : Bool} {i : Nat} (unused : (fs.nodes i).used = false)
    (used : ((ramfsResolve fs path createDirs).fs.nodes i).used = true) :
    ((ramfsResolve fs path createDirs).fs.nodes i).type = .dir := by
  unfold ramfsResolve at used ⊢
  split at used
  · exact absurd (unused.symm.trans used) (by simp)
  next absolute =>
    rw [if_neg absolute]
    cases tokens : ramfsPathTokens path with
    | nil =>
        simp only [tokens] at used
        exact absurd (unused.symm.trans used) (by simp)
    | cons tok rest =>
        simp only [tokens] at used ⊢
        exact ramfsResolveLoop_new unused used

/-- Contents, modes and owners do not matter to a resolution. -/
theorem RamfsSameShape.findChild (same : RamfsSameShape fs fs') (p : Nat) (name : CString) :
    ramfsFindChild fs' p name = ramfsFindChild fs p name := by
  simp only [ramfsFindChild, RamfsNode.entries, same.used, same.name, same.childCount,
    same.children]

theorem RamfsSameShape.resolveLoop (same : RamfsSameShape fs fs') :
    (ramfsResolveLoop false fs' cur tok rest).node =
      (ramfsResolveLoop false fs cur tok rest).node := by
  induction rest generalizing cur tok with
  | nil => simp only [ramfsResolveLoop, same.findChild]
  | cons next rest ih =>
      rw [ramfsResolveLoop, ramfsResolveLoop, same.findChild]
      cases child : ramfsFindChild fs cur tok with
      | none => rfl
      | some c =>
          simp only [same.type]
          split
          · exact ih
          · rfl

theorem RamfsSameShape.resolve (same : RamfsSameShape fs fs') (path : CString) :
    (ramfsResolve fs' path false).node = (ramfsResolve fs path false).node := by
  unfold ramfsResolve
  split
  · rfl
  · cases ramfsPathTokens path with
    | nil => exact congrArg Except.ok same.root
    | cons tok rest =>
        rw [same.root]
        exact same.resolveLoop

end Resolve

/-! ## The root -/

/-- The root is in use, and no directory lists it. -/
structure RootOk (fs : Ramfs) : Prop where
  used : (fs.nodes fs.rootIndex).used = true
  unlisted : ∀ p, fs.rootIndex ∉ (fs.nodes p).entries

namespace RootOk

variable {fs fs' : Ramfs} {p idx : Nat} {name path : CString}

theorem setNode (root : RootOk fs) {i : Nat} {n : RamfsNode}
    (used : i = fs.rootIndex → n.used = true) (unlisted : fs.rootIndex ∉ n.entries) :
    RootOk (fs.setNode i n) := by
  refine ⟨?_, fun p => ?_⟩
  · rcases eq_or_ne fs.rootIndex i with same | ne
    · rw [Ramfs.setNode_rootIndex, same, Ramfs.setNode_nodes_self]
      exact used same.symm
    · rw [Ramfs.setNode_rootIndex, Ramfs.setNode_nodes_of_ne _ _ ne]
      exact root.used
  · rcases eq_or_ne p i with rfl | ne
    · rwa [Ramfs.setNode_rootIndex, Ramfs.setNode_nodes_self]
    · rw [Ramfs.setNode_rootIndex, Ramfs.setNode_nodes_of_ne _ _ ne]
      exact root.unlisted p

theorem sameShape (root : RootOk fs) (same : RamfsSameShape fs fs') : RootOk fs' := by
  refine ⟨by rw [same.root, same.used]; exact root.used, fun p => ?_⟩
  rw [same.root, RamfsNode.entries, same.childCount, same.children]
  exact root.unlisted p

theorem addChild (root : RootOk fs) (p : Nat) (ne : fs.rootIndex ≠ idx) :
    RootOk (fs.setNode p ((fs.nodes p).addChild idx)) := by
  refine root.setNode (fun same => ?_) ?_
  · rw [RamfsNode.addChild, same]
    exact root.used
  · rw [RamfsNode.entries_addChild, List.mem_append, List.mem_singleton]
    exact fun mem => mem.elim (root.unlisted p) ne

theorem createChild (root : RootOk fs) {type : RamfsNodeType}
    (ok : ramfsCreateChild fs p name type = .ok (idx, fs')) : RootOk fs' := by
  obtain ⟨-, -, unused, rfl⟩ := ramfsCreateChild_ok ok
  have ne : fs.rootIndex ≠ idx := by
    rintro same
    exact absurd (unused.symm.trans (same ▸ root.used)) (by simp)
  exact (root.setNode (fun _ => rfl) (by simp [RamfsNode.entries, RamfsNode.zero])).addChild p ne

theorem resolveLoop (root : RootOk fs) {createDirs : Bool} {cur : Nat} {tok : CString}
    {rest : List CString} : RootOk (ramfsResolveLoop createDirs fs cur tok rest).fs := by
  induction rest generalizing fs cur tok with
  | nil => exact root
  | cons next rest ih =>
      rw [ramfsResolveLoop]
      cases child : ramfsFindChild fs cur tok with
      | some c =>
          by_cases dirC : (fs.nodes c).type = .dir
          · simpa [dirC] using ih root
          · simpa [dirC] using root
      | none =>
          cases createDirs with
          | false => simpa using root
          | true =>
              cases create : ramfsCreateChild fs cur tok .dir with
              | error e => simpa [create] using root
              | ok made =>
                  have made_ := root.createChild create
                  by_cases dirC : (made.2.nodes made.1).type = .dir
                  · simpa [create, dirC] using ih made_
                  · simpa [create, dirC] using made_

theorem resolve (root : RootOk fs) (path : CString) (createDirs : Bool) :
    RootOk (ramfsResolve fs path createDirs).fs := by
  rw [ramfsResolve]
  split
  · exact root
  · split
    · exact root
    · exact root.resolveLoop

theorem detachChild (root : RootOk fs) {child : Nat}
    (ok : ramfsDetachChild fs p child = some fs') : RootOk fs' ∧ fs.rootIndex ≠ child := by
  obtain ⟨n, rfl, entries, -, mem, same⟩ := ramfsDetachChild_ok ok
  refine ⟨root.setNode (fun eq => ?_) ?_, fun eq => root.unlisted p (eq ▸ mem)⟩
  · rw [same, eq]
    exact root.used
  · rw [entries]
    exact fun listed => root.unlisted p (List.mem_of_mem_erase listed)

theorem opMkdir (root : RootOk fs) (uid : Nat) (path : CString) (mode : Nat) :
    RootOk (ramfsOpMkdir uid fs path mode).2 := by
  have resolved := root.resolve path true
  unfold ramfsOpMkdir
  dsimp only
  split
  · split <;> exact resolved
  · split
    next made => exact (resolved.createChild made).sameShape (ramfsStamp_sameShape _ _ _ _)
    · exact resolved
  · exact resolved

theorem opCreateFile (root : RootOk fs) (uid : Nat) (path : CString) (mode : Nat)
    (data : List UInt8) : RootOk (ramfsOpCreateFile uid fs path mode data).2 := by
  have resolved := root.resolve path true
  unfold ramfsOpCreateFile
  dsimp only
  split
  · exact resolved.sameShape (ramfsStoreContent_sameShape _ _ _)
  · split
    next made =>
      exact ((resolved.createChild made).sameShape (ramfsStamp_sameShape _ _ _ _)).sameShape
        (ramfsStoreContent_sameShape _ _ _)
    · exact resolved
  · exact resolved

theorem opRename (root : RootOk fs) (oldPath newPath : CString) :
    RootOk (ramfsOpRename fs oldPath newPath).2 := by
  -- a node whose name and parent change lists what it listed
  have renamed : ∀ (fs₁ : Ramfs) (node parent : Nat) (name : CString), RootOk fs₁ →
      RootOk (fs₁.setNode node { fs₁.nodes node with parent := parent, name := name }) := by
    intro fs₁ node parent name root₁
    exact root₁.setNode (fun same => by rw [same]; exact root₁.used) (root₁.unlisted node)
  unfold ramfsOpRename
  split
  · exact root
  split
  · exact root
  dsimp only
  split
  next node oldParent newParent _ _ _ _ _ =>
    split
    · split
      · exact root
      next fs₁ detach =>
        obtain ⟨detached, ne⟩ := root.detachChild detach
        split
        · exact detached
        · refine renamed _ _ _ _ (detached.addChild newParent ?_)
          obtain ⟨_, rfl, -⟩ := ramfsDetachChild_ok detach
          exact ne
    · exact renamed fs node (fs.nodes node).parent _ root
  · exact root

theorem opRemove (root : RootOk fs) (path : CString) : RootOk (ramfsOpRemove fs path).2 := by
  unfold ramfsOpRemove
  split
  · exact root
  dsimp only
  split
  · split
    · exact root
    split
    · exact root
    next node parent _ _ _ fs₁ detach =>
      obtain ⟨detached, ne⟩ := root.detachChild detach
      refine detached.setNode (fun same => ?_) (by simp [RamfsNode.entries, RamfsNode.zero])
      obtain ⟨_, rfl, -⟩ := ramfsDetachChild_ok detach
      exact absurd same.symm ne
  · exact root

end RootOk

/-! ## Runs -/

/-- The path and the bytes of an action that writes a file. -/
def RamfsAction.written : RamfsAction → Option (CString × List UInt8)
  | .createFile _ path _ data => some (path, data)
  | .writeFile _ path data => some (path, data)
  | _ => none

/-- The file that a write through the path is to: the node the path leads to, or else the
new file in the state after the write. -/
def WrittenTo (fs fs' : Ramfs) (path : CString) (i : Nat) : Prop :=
  if (fs.nodes i).used then (ramfsResolve fs path false).node.toOption = some i
  else (fs'.nodes i).type = .file

instance (fs fs' : Ramfs) (path : CString) (i : Nat) : Decidable (WrittenTo fs fs' path i) :=
  inferInstanceAs (Decidable (if (fs.nodes i).used then
    (ramfsResolve fs path false).node.toOption = some i else (fs'.nodes i).type = .file))

/-- The bytes that the last successful write put into each node, after one more action;
a node starts without any. -/
def lastAfter (fs : Ramfs) (last : Nat → List UInt8) (a : RamfsAction) (i : Nat) : List UInt8 :=
  let kept := if (fs.nodes i).used then last i else []
  match a.written with
  | some (path, data) =>
      if (ramfsCall fs a).1 = 0 ∧ WrittenTo fs (ramfsCall fs a).2 path i then data else kept
  | none => kept

/-- The filesystem, and what was written to each node last. -/
structure Tracked where
  fs : Ramfs
  last : Nat → List UInt8

/-- One step of a run, with the record. -/
def trackedStep (x : Tracked) (a : RamfsAction) : Tracked :=
  ⟨ramfsStep x.fs a, lastAfter x.fs x.last a⟩

/-- The pool is in order and holds what was written last. -/
structure PoolHolds (x : Tracked) : Prop where
  root : RootOk x.fs
  pool : PoolOk x.fs
  contents : ∀ i, (x.fs.nodes i).used = true → ramfsContent x.fs (x.fs.nodes i) = x.last i

section Step

variable {fs fs' : Ramfs} {x : Tracked} {path : CString}

/-- Where nothing was written, nodes keep what they had and new ones have nothing. -/
theorem Grows.kept_contents (grows : Grows fs fs') {last : Nat → List UInt8}
    (contents : ∀ i, (fs.nodes i).used = true → ramfsContent fs (fs.nodes i) = last i) {i : Nat}
    (used : (fs'.nodes i).used = true) :
    ramfsContent fs' (fs'.nodes i) = if (fs.nodes i).used then last i else [] := by
  split
  next before => rw [grows.content before, contents i before]
  next unused => exact grows.content_new (by simpa using unused) used

/-- What `ramfs_op_create_file` does: it fails, and has at most made new nodes, or it
stores the bytes in the file that the path leads to, or in a new one. -/
theorem ramfsOpCreateFile_spec (root : RootOk fs) (ok : PoolOk fs) (uid : Nat) (path : CString)
    (mode : Nat) (data : List UInt8) :
    ((ramfsOpCreateFile uid fs path mode data).1 ≠ 0 ∧
        Grows fs (ramfsOpCreateFile uid fs path mode data).2) ∨
      ∃ fs₁ node, (ramfsOpCreateFile uid fs path mode data).1 = 0 ∧ Grows fs fs₁ ∧
        (fs₁.nodes node).used = true ∧
        Stores fs₁ (ramfsOpCreateFile uid fs path mode data).2 node data ∧
        ∀ i, (fs₁.nodes i).used = true →
          (WrittenTo fs (ramfsOpCreateFile uid fs path mode data).2 path i ↔ i = node) := by
  have resolved := ramfsResolve_grows fs path true
  unfold ramfsOpCreateFile
  dsimp only
  split
  next node found =>
    -- the file is there
    obtain ⟨same, finds, used⟩ := ramfsResolve_found root.used found
    rw [same]
    rcases ramfsStoreContent_spec ok used data with ⟨fails, unchanged⟩ | ⟨done, file, stores⟩
    · rw [unchanged]
      exact .inl ⟨fails, .refl fs⟩
    · refine .inr ⟨fs, node, done, .refl fs, used, stores, fun i usedI => ?_⟩
      rw [WrittenTo, if_pos usedI, finds]
      exact ⟨fun same => (Option.some.inj same).symm, fun same => by rw [same]; rfl⟩
  next parent missing _ =>
    split
    next node fs₁ made =>
      obtain ⟨created, unused, used, type⟩ := ramfsCreateChild_grows made
      have stamped := ramfsStamp_grows fs₁ node (if mode = 0 then ramfsDefaultFileMode else mode) uid
      have grows := (resolved.trans created).trans stamped
      have usedN := stamped.used node used
      rcases ramfsStoreContent_spec (grows.poolOk ok) usedN data with
        ⟨fails, unchanged⟩ | ⟨done, file, stores⟩
      · rw [unchanged]
        exact .inl ⟨fails, grows⟩
      · refine .inr ⟨_, node, done, grows, usedN, stores, fun i usedI => ?_⟩
        have typeI := (ramfsStoreContent_sameShape
          (ramfsStamp fs₁ node (if mode = 0 then ramfsDefaultFileMode else mode) uid) node data).type i
        unfold WrittenTo
        rw [typeI]
        split
        next before =>
          -- the path leads to no node that was there
          refine ⟨fun same => ?_, ?_⟩
          · exfalso
            cases found : (ramfsResolve fs path false).node with
            | error e => simp [found, Except.toOption] at same
            | ok n =>
                rw [ramfsResolve_finds found, found] at missing
                exact absurd missing (by simp)
          · rintro rfl
            exact absurd ((resolved.used i before).symm.trans unused) (by simp)
        next new =>
          refine ⟨fun isFile => ?_, ?_⟩
          · by_contra ne
            have unusedI : (fs.nodes i).used = false := by simpa using new
            have usedMade : (fs₁.nodes i).used = true :=
              (ramfsStamp_sameShape fs₁ node _ uid).used i ▸ usedI
            have usedMid : ((ramfsResolve fs path true).fs.nodes i).used = true := by
              by_contra unusedMid
              exact ne (ramfsCreateChild_new made (by simpa using unusedMid) usedMade)
            have dir := ramfsResolve_new unusedI usedMid
            rw [stamped.type i usedMade, created.type i usedMid, dir] at isFile
            exact absurd isFile (by simp)
          · rintro rfl
            exact file
    · exact .inl ⟨by simp, resolved⟩
  · exact .inl ⟨by simp, resolved⟩

/-- Storing bytes: the file has them, and the others keep what they had. -/
theorem Stores.kept_contents {fs₁ fs₂ : Ramfs} {node : Nat} {data : List UInt8}
    (stores : Stores fs₁ fs₂ node data) (grows : Grows fs fs₁) {last : Nat → List UInt8}
    (contents : ∀ i, (fs.nodes i).used = true → ramfsContent fs (fs.nodes i) = last i) {i : Nat}
    (used : (fs₂.nodes i).used = true) :
    ramfsContent fs₂ (fs₂.nodes i) =
      if i = node then data else if (fs.nodes i).used then last i else [] := by
  split
  next same => rw [same, stores.content]
  next ne =>
    rw [stores.used i] at used
    rw [stores.others i ne used]
    exact grows.kept_contents contents used

theorem write_poolHolds (holds : PoolHolds x) (uid : Nat) (path : CString) (mode : Nat)
    (data : List UInt8) :
    PoolOk (ramfsOpCreateFile uid x.fs path mode data).2 ∧
      ∀ i, ((ramfsOpCreateFile uid x.fs path mode data).2.nodes i).used = true →
        ramfsContent (ramfsOpCreateFile uid x.fs path mode data).2
            ((ramfsOpCreateFile uid x.fs path mode data).2.nodes i) =
          if (ramfsOpCreateFile uid x.fs path mode data).1 = 0 ∧
              WrittenTo x.fs (ramfsOpCreateFile uid x.fs path mode data).2 path i then data
          else if (x.fs.nodes i).used then x.last i else [] := by
  rcases ramfsOpCreateFile_spec holds.root holds.pool uid path mode data with
    ⟨fails, grows⟩ | ⟨fs₁, node, done, grows, usedN, stores, target⟩
  · refine ⟨grows.poolOk holds.pool, fun i used => ?_⟩
    rw [if_neg fun done => fails done.1]
    exact grows.kept_contents holds.contents used
  · refine ⟨stores.poolOk, fun i used => ?_⟩
    rw [stores.kept_contents grows holds.contents used]
    have same := target i (stores.used i ▸ used)
    simp only [done, true_and, same]

/-- What a removal does: nothing, or it frees one node. -/
theorem ramfsOpRemove_frees (fs : Ramfs) (path : CString) :
    (ramfsOpRemove fs path).2 = fs ∨ ∃ fs₁ node, Grows fs fs₁ ∧
      (∀ i, (fs₁.nodes i).used = (fs.nodes i).used) ∧
      (ramfsOpRemove fs path).2 = fs₁.setNode node .zero := by
  unfold ramfsOpRemove
  split
  · exact .inl rfl
  dsimp only
  split
  · split
    · exact .inl rfl
    split
    · exact .inl rfl
    next node parent _ _ _ _ fs₁ detach =>
      refine .inr ⟨fs₁, node, ramfsDetachChild_grows detach, fun i => ?_, rfl⟩
      obtain ⟨n, rfl, -, -, -, same⟩ := ramfsDetachChild_ok detach
      rcases eq_or_ne i parent with rfl | ne
      · rw [Ramfs.setNode_nodes_self, same]
      · rw [Ramfs.setNode_nodes_of_ne _ _ ne]
  · exact .inl rfl

/-- A node that is freed takes its region with it. -/
theorem setNode_zero_poolOk (ok : PoolOk fs) (node : Nat) : PoolOk (fs.setNode node .zero) := by
  have still : ∀ i, ((fs.setNode node .zero).nodes i).used = true →
      (fs.setNode node .zero).nodes i = fs.nodes i := by
    intro i used
    rcases eq_or_ne i node with rfl | ne
    · rw [Ramfs.setNode_nodes_self] at used
      exact absurd used (by simp [RamfsNode.zero])
    · exact Ramfs.setNode_nodes_of_ne _ _ ne
  refine ⟨ok.bound, fun i used => ?_, fun i off used => ?_, fun i j off off' usedI usedJ => ?_⟩
  · have same := still i used
    rw [same] at used ⊢
    exact ok.blank i used
  · have same := still i used
    rw [same] at used ⊢
    exact ok.inside i off used
  · have sameI := still i usedI
    have sameJ := still j usedJ
    rw [sameI] at usedI ⊢
    rw [sameJ] at usedJ ⊢
    exact ok.apart i j off off' usedI usedJ

theorem trackedStep_poolHolds (holds : PoolHolds x) (a : RamfsAction) :
    PoolHolds (trackedStep x a) := by
  -- an operation that only makes nodes and moves them
  have grown : ∀ fs', Grows x.fs fs' → RootOk fs' → PoolHolds
      ⟨fs', fun i => if (x.fs.nodes i).used then x.last i else []⟩ :=
    fun fs' grows root => ⟨root, grows.poolOk holds.pool,
      fun i used => grows.kept_contents holds.contents used⟩
  cases a with
  | mkdir uid path mode =>
      exact grown _ (ramfsOpMkdir_grows uid x.fs path mode) (holds.root.opMkdir uid path mode)
  | createFile uid path mode data =>
      obtain ⟨pool, contents⟩ := write_poolHolds holds uid path mode data
      exact ⟨holds.root.opCreateFile uid path mode data, pool, contents⟩
  | writeFile uid path data =>
      obtain ⟨pool, contents⟩ := write_poolHolds holds uid path 0 data
      exact ⟨holds.root.opCreateFile uid path 0 data, pool, contents⟩
  | rename oldPath newPath =>
      exact grown _ (ramfsOpRename_grows x.fs oldPath newPath) (holds.root.opRename oldPath newPath)
  | remove path =>
      have root := holds.root.opRemove path
      rcases ramfsOpRemove_frees x.fs path with same | ⟨fs₁, node, grows, usedSame, frees⟩
      · have grows : Grows x.fs (ramfsOpRemove x.fs path).2 := by
          rw [same]
          exact .refl x.fs
        exact grown _ grows root
      · refine ⟨root, ?_, fun i used => ?_⟩
        · show PoolOk (ramfsOpRemove x.fs path).2
          rw [frees]
          exact setNode_zero_poolOk (grows.poolOk holds.pool) node
        · change ((ramfsOpRemove x.fs path).2.nodes i).used = true at used
          show ramfsContent (ramfsOpRemove x.fs path).2 ((ramfsOpRemove x.fs path).2.nodes i) =
            if (x.fs.nodes i).used then x.last i else []
          rw [frees] at used ⊢
          have ne : i ≠ node := by
            rintro rfl
            rw [Ramfs.setNode_nodes_self] at used
            exact absurd used (by simp [RamfsNode.zero])
          rw [Ramfs.setNode_nodes_of_ne _ _ ne] at used ⊢
          exact grows.kept_contents holds.contents used

/-- A write that fails leaves every file, with its bytes. -/
theorem failed_write_keeps (holds : PoolHolds x) {uid mode : Nat} {data : List UInt8}
    (fails : (ramfsOpCreateFile uid x.fs path mode data).1 ≠ 0) {i : Nat} (live : x.fs.Live i) :
    (ramfsOpCreateFile uid x.fs path mode data).2.Live i ∧
      ramfsContent (ramfsOpCreateFile uid x.fs path mode data).2
          ((ramfsOpCreateFile uid x.fs path mode data).2.nodes i) =
        ramfsContent x.fs (x.fs.nodes i) := by
  rcases ramfsOpCreateFile_spec holds.root holds.pool uid path mode data with
    ⟨-, grows⟩ | ⟨_, _, done, -⟩
  · exact ⟨⟨grows.used i live.1, (grows.type i live.1).trans live.2⟩, grows.content live.1⟩
  · exact absurd done fails

end Step

/-- A node of the fresh filesystem. -/
theorem ramfsInit_poolHolds : PoolHolds ⟨ramfsInit, fun _ => []⟩ := by
  have blank : ∀ i, (ramfsInit.nodes i).data = none ∧ (ramfsInit.nodes i).size = 0 ∧
      (ramfsInit.nodes i).capacity = 0 ∧ (ramfsInit.nodes i).entries = [] := by
    intro i
    rcases eq_or_ne i 0 with rfl | ne
    · exact ⟨rfl, rfl, rfl, rfl⟩
    · rw [ramfsInit, Ramfs.setNode_nodes_of_ne _ _ ne]
      exact ⟨rfl, rfl, rfl, rfl⟩
  refine ⟨⟨rfl, fun p => ?_⟩, ⟨Nat.zero_le _, fun i _ _ => ?_, fun i off _ data => ?_,
    fun i j off off' _ _ _ data => ?_⟩, fun i _ => ?_⟩
  · rw [(blank p).2.2.2]
    simp
  · exact ⟨(blank i).2.1, (blank i).2.2.1⟩
  · exact absurd ((blank i).1.symm.trans data) (by simp)
  · exact absurd ((blank i).1.symm.trans data) (by simp)
  · rw [ramfsContent, (blank i).1]

/-- A path that leads to a file reads the file's bytes. -/
theorem ramfsOpReadFile_live {fs : Ramfs} (ok : PoolOk fs) {path : CString} {i : Nat}
    (live : fs.Live i) (leads : (ramfsResolve fs path false).node = .ok i) {cap : Nat}
    (room : (ramfsContent fs (fs.nodes i)).length ≤ cap) :
    ramfsOpReadFile fs path (some cap) =
      ⟨0, some (ramfsContent fs (fs.nodes i)).length, ramfsContent fs (fs.nodes i)⟩ := by
  have sized : (fs.nodes i).Sized := fun none => (ok.blank i live.1 none).1
  rw [ramfsContent_length fs sized] at room ⊢
  simp [ramfsOpReadFile, leads, live.2, Nat.not_lt.2 room]

/-- In a state of the filesystem the files' regions are apart and inside the pool, and
every path that leads to a file reads what was written to the file last. -/
structure ContentsIsolated (x : Tracked) : Prop where
  inside : ∀ i off, x.fs.Live i → (x.fs.nodes i).data = some off →
    off + (x.fs.nodes i).capacity ≤ x.fs.filePoolUsed ∧ x.fs.filePoolUsed ≤ ramfsMaxFileBytes
  apart : ∀ i j off off', x.fs.Live i → x.fs.Live j → i ≠ j → (x.fs.nodes i).data = some off →
    (x.fs.nodes j).data = some off' →
    ((x.fs.nodes i).region off).Apart ((x.fs.nodes j).region off')
  readsBack : ∀ path i, x.fs.Live i → (ramfsResolve x.fs path false).node = .ok i →
    ∀ cap, (x.last i).length ≤ cap →
      ramfsOpReadFile x.fs path (some cap) = ⟨0, some (x.last i).length, x.last i⟩

theorem PoolHolds.isolated {x : Tracked} (holds : PoolHolds x) : ContentsIsolated x := by
  refine ⟨fun i off live data => ⟨(holds.pool.inside i off live.1 data).2, holds.pool.bound⟩,
    fun i j off off' liveI liveJ => holds.pool.apart i j off off' liveI.1 liveJ.1,
    fun path i live leads cap room => ?_⟩
  rw [← holds.contents i live.1] at room ⊢
  exact ramfsOpReadFile_live holds.pool live leads room

/-- The step leaves the contents isolated, and a write that fails keeps every file with
its bytes. -/
def KeepsContents (x : Tracked) (a : RamfsAction) : Prop :=
  ContentsIsolated (trackedStep x a) ∧
    (a.written.isSome → (ramfsCall x.fs a).1 ≠ 0 → ∀ i, x.fs.Live i →
      (ramfsStep x.fs a).Live i ∧
        ramfsContent (ramfsStep x.fs a) ((ramfsStep x.fs a).nodes i) =
          ramfsContent x.fs (x.fs.nodes i))

theorem PoolHolds.keepsContents {x : Tracked} (holds : PoolHolds x) (a : RamfsAction) :
    KeepsContents x a := by
  refine ⟨(trackedStep_poolHolds holds a).isolated, fun writes fails i live => ?_⟩
  cases a with
  | createFile uid path mode data => exact failed_write_keeps holds fails live
  | writeFile uid path data => exact failed_write_keeps holds fails live
  | mkdir => exact absurd writes (by simp [RamfsAction.written])
  | remove => exact absurd writes (by simp [RamfsAction.written])
  | rename => exact absurd writes (by simp [RamfsAction.written])

end NTux.Fs
