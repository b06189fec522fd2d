import NTux.Fs.RamfsRename

/-!
# What a filesystem holds at a path

A backend is only a table of operations.  `HoldsAt` says what it means for one to
hold an entry (a file with its content, a directory with its listing, or nothing)
at a path, in terms of the answers of its three lookups, device I/O assumed to
succeed; `RemovesAt` and `RenamesAt` say that removing and renaming act on the
paths they name and leave them alone when they fail.  The error codes are the
backend's own.

The RAM filesystem is such a backend in every state it reaches
(`ramfsBackendOps_holdsAt`, `ramfs_sized_along_run`).
-/

namespace NTux.Fs

open NTux.Lib

/-- An entry of a filesystem as its lookups show it. -/
inductive VfsEntry
  | file (content : List UInt8)
  | dir (listing : List VfsDirent)

/-- A buffer is big enough for `n` bytes; a null buffer asks for the length only. -/
def BufferFits (buffer : Option Nat) (n : Nat) : Prop := ∀ cap, buffer = some cap → n ≤ cap

/-- A successful read of a file with the given content. -/
def readAnswer (buffer : Option Nat) (content : List UInt8) : ReadOutcome :=
  ⟨0, some content.length, if buffer.isSome then content else []⟩

/-- A successful listing. -/
def listAnswer (out : Bool) (maxEntries : Nat) (listing : List VfsDirent) : ListOutcome :=
  ⟨0, some listing.length, if out then listing.take maxEntries else []⟩

section Contract

variable {σ : Type} (ops : VfsBackendOps σ) (s : σ) (p q : CString)

/-- `read_file` shows the entry: a file is read whole, or refused for want of room
after its length was reported; anything else is refused without touching the
caller's variables. -/
def ReadsAt (entry : Option VfsEntry) : Prop :=
  ∃ readFile, ops.readFile = some readFile ∧ ∀ buffer,
    match entry with
    | some (.file content) =>
        (BufferFits buffer content.length → readFile s p buffer = readAnswer buffer content) ∧
        (¬ BufferFits buffer content.length →
          (readFile s p buffer).rc ≠ 0 ∧ (readFile s p buffer).outLen = some content.length ∧
            (readFile s p buffer).out = [])
    | _ => (readFile s p buffer).rc ≠ 0 ∧ (readFile s p buffer).outLen = none ∧
        (readFile s p buffer).out = []

/-- `list_dir` shows the entry. -/
def ListsAt (entry : Option VfsEntry) : Prop :=
  ∃ listDir, ops.listDir = some listDir ∧ ∀ out maxEntries,
    match entry with
    | some (.dir listing) => listDir s p out maxEntries = listAnswer out maxEntries listing
    | _ => (listDir s p out maxEntries).rc ≠ 0 ∧ (listDir s p out maxEntries).outCount = none ∧
        (listDir s p out maxEntries).out = []

/-- `exists` shows whether there is an entry. -/
def ExistsAt (entry : Option VfsEntry) : Prop :=
  ∃ exists_, ops.exists_ = some exists_ ∧ (0 < exists_ s p ↔ entry.isSome)

/-- The backend holds `entry` at `p`: its lookups all show it. -/
structure HoldsAt (entry : Option VfsEntry) : Prop where
  reads : ReadsAt ops s p entry
  lists : ListsAt ops s p entry
  exists_ : ExistsAt ops s p entry

/-- `remove`, on a path where the backend holds `entry`. -/
def RemovesAt (entry : Option VfsEntry) : Prop :=
  ∃ remove, ops.remove = some remove ∧
    ((remove s p).1 = 0 → entry.isSome ∧ HoldsAt ops (remove s p).2 p none) ∧
    ((remove s p).1 ≠ 0 → HoldsAt ops (remove s p).2 p entry)

/-- `rename`, on paths where the backend holds `entry` and `target`. -/
def RenamesAt (entry target : Option VfsEntry) : Prop :=
  ∃ rename, ops.rename = some rename ∧
    ((rename s p q).1 = 0 → entry.isSome ∧ HoldsAt ops (rename s p q).2 p none ∧
      HoldsAt ops (rename s p q).2 q entry) ∧
    ((rename s p q).1 ≠ 0 → HoldsAt ops (rename s p q).2 p entry ∧
      HoldsAt ops (rename s p q).2 q target)

end Contract

/-! ## The RAM filesystem as a layer -/

/-- A node without data has no bytes. -/
def RamfsNode.Sized (n : RamfsNode) : Prop := n.data = none → n.size = 0

/-- What the RAM filesystem holds at a path. -/
def ramfsLookup (fs : Ramfs) (path : CString) : Option VfsEntry :=
  match (ramfsResolve fs path false).node with
  | .error _ => none
  | .ok node =>
      match (fs.nodes node).type with
      | .file => some (.file (ramfsContent fs (fs.nodes node)))
      | .dir => some (.dir ((fs.nodes node).entries.map fun c => ramfsDirent (fs.nodes c)))

theorem ramfsContent_length (fs : Ramfs) {n : RamfsNode} (sized : n.Sized) :
    (ramfsContent fs n).length = n.size := by
  unfold ramfsContent
  cases data : n.data with
  | some off => simp
  | none => simp [sized data]

/-- The RAM filesystem's lookups show what it holds. -/
theorem ramfsBackendOps_holdsAt {fs : Ramfs} (sized : ∀ n, (fs.nodes n).Sized) (uid : Nat)
    (path : CString) : HoldsAt (ramfsBackendOps uid) fs path (ramfsLookup fs path) := by
  cases resolved : (ramfsResolve fs path false).node with
  | error e =>
      have lookup : ramfsLookup fs path = none := by simp [ramfsLookup, resolved]
      rw [lookup]
      refine ⟨⟨_, rfl, fun buffer => ?_⟩, ⟨_, rfl, fun out maxEntries => ?_⟩, ⟨_, rfl, ?_⟩⟩
      · simp [ramfsOpReadFile, resolved]
      · simp [ramfsOpListDir, resolved]
      · simp [ramfsOpExists, resolved]
  | ok node =>
      have length := ramfsContent_length fs (sized node)
      cases type : (fs.nodes node).type with
      | dir =>
          have lookup : ramfsLookup fs path =
              some (.dir ((fs.nodes node).entries.map fun c => ramfsDirent (fs.nodes c))) := by
            simp [ramfsLookup, resolved, type]
          rw [lookup]
          refine ⟨⟨_, rfl, fun buffer => ?_⟩, ⟨_, rfl, fun out maxEntries => ?_⟩, ⟨_, rfl, ?_⟩⟩
          · simp [ramfsOpReadFile, resolved, type]
          · cases out <;> simp [ramfsOpListDir, resolved, type, listAnswer]
          · simp [ramfsOpExists, resolved]
      | file =>
          have lookup : ramfsLookup fs path = some (.file (ramfsContent fs (fs.nodes node))) := by
            simp [ramfsLookup, resolved, type]
          rw [lookup]
          refine ⟨⟨_, rfl, fun buffer => ?_⟩, ⟨_, rfl, fun out maxEntries => ?_⟩, ⟨_, rfl, ?_⟩⟩
          · dsimp only
            rw [length]
            cases buffer with
            | none => simp [ramfsOpReadFile, resolved, type, BufferFits, readAnswer, length]
            | some cap =>
                simp only [ramfsOpReadFile, resolved, type, BufferFits, readAnswer, length,
                  Option.some.injEq, forall_eq', Option.isSome_some, if_true, ne_eq,
                  not_true_eq_false, if_false, not_le]
                by_cases small : cap < (fs.nodes node).size
                · simp [small]
                · simp [small]
          · simp [ramfsOpListDir, resolved, type]
          · simp [ramfsOpExists, resolved]

/-! ### Every reachable state is sized -/

section Sized

variable {fs fs' : Ramfs}

theorem Ramfs.setNode_sized (sized : ∀ n, (fs.nodes n).Sized) (i : Nat) {node : RamfsNode}
    (new : node.Sized) : ∀ n, ((fs.setNode i node).nodes n).Sized := by
  intro n
  rcases eq_or_ne n i with rfl | ne
  · rwa [Ramfs.setNode_nodes_self]
  · rw [Ramfs.setNode_nodes_of_ne _ _ ne]
    exact sized n

theorem ramfsCreateChild_sized (sized : ∀ n, (fs.nodes n).Sized) {p idx : Nat} {name : CString}
    {type : RamfsNodeType} (ok : ramfsCreateChild fs p name type = .ok (idx, fs')) :
    ∀ n, (fs'.nodes n).Sized := by
  obtain ⟨-, -, -, rfl⟩ := ramfsCreateChild_ok ok
  have new : RamfsNode.Sized { RamfsNode.zero with
      used := true, type := type, parent := p, name := ramfsCopyName name } := fun _ => rfl
  have leaf := Ramfs.setNode_sized sized idx new
  exact Ramfs.setNode_sized leaf p (leaf p)

theorem ramfsResolveLoop_sized {createDirs : Bool} {rest : List CString} {cur : Nat}
    {tok : CString} (sized : ∀ n, (fs.nodes n).Sized) :
    ∀ n, ((ramfsResolveLoop createDirs fs cur tok rest).fs.nodes n).Sized := by
  induction rest generalizing fs cur tok with
  | nil => exact sized
  | cons next rest ih =>
      rw [ramfsResolveLoop]
      cases child : ramfsFindChild fs cur tok with
      | some c =>
          by_cases dirC : (fs.nodes c).type = .dir
          · simpa [dirC] using ih sized
          · simpa [dirC] using sized
      | none =>
          cases createDirs with
          | false => simpa using sized
          | true =>
              cases create : ramfsCreateChild fs cur tok .dir with
              | error e => simpa [create] using sized
              | ok made =>
                  have sized' := ramfsCreateChild_sized sized create
                  by_cases dirC : (made.2.nodes made.1).type = .dir
                  · simpa [create, dirC] using ih sized'
                  · simpa [create, dirC] using sized'

theorem ramfsResolve_sized (sized : ∀ n, (fs.nodes n).Sized) (path : CString)
    (createDirs : Bool) : ∀ n, ((ramfsResolve fs path createDirs).fs.nodes n).Sized := by
  rw [ramfsResolve]
  split
  · exact sized
  · split
    · exact sized
    · exact ramfsResolveLoop_sized sized

theorem ramfsStamp_sized (sized : ∀ n, (fs.nodes n).Sized) (node mode uid : Nat) :
    ∀ n, ((ramfsStamp fs node mode uid).nodes n).Sized :=
  Ramfs.setNode_sized sized node (sized node)

theorem ramfsStoreContent_sized (sized : ∀ n, (fs.nodes n).Sized) (node : Nat)
    (data : List UInt8) : ∀ n, ((ramfsStoreContent fs node data).2.nodes n).Sized := by
  have stored : ∀ (fs₁ : Ramfs) (dst : Nat), fs₁.nodes = fs.nodes →
      ∀ n, (((ramfsPoolWrite fs₁ dst data).setNode node { fs.nodes node with
        data := some dst, size := data.length, capacity := data.length }).nodes n).Sized := by
    intro fs₁ dst nodes
    refine Ramfs.setNode_sized ?_ _ ?_
    · simpa [ramfsPoolWrite, nodes] using sized
    · simp [RamfsNode.Sized]
  simp only [ramfsStoreContent]
  by_cases notFile : (fs.nodes node).type ≠ .file
  · rwa [if_pos notFile]
  by_cases noData : data.length = 0
  · rw [if_neg notFile, if_pos noData]
    exact Ramfs.setNode_sized sized _ fun _ => rfl
  · rw [if_neg notFile, if_neg noData]
    split
    · exact sized
    · next dst fs₁ place =>
        refine stored fs₁ dst ?_
        split at place
        · simp only [Option.map_eq_some_iff, Prod.mk.injEq] at place
          obtain ⟨_, -, -, rfl⟩ := place
          rfl
        · simp only [ramfsAllocBytes] at place
          split_ifs at place
          simp only [Option.some.injEq, Prod.mk.injEq] at place
          obtain ⟨-, rfl⟩ := place
          rfl

theorem ramfsDetachChild_sized (sized : ∀ n, (fs.nodes n).Sized) {p child : Nat}
    (ok : ramfsDetachChild fs p child = some fs') : ∀ n, (fs'.nodes n).Sized := by
  simp only [ramfsDetachChild, Option.map_eq_some_iff] at ok
  obtain ⟨i, -, rfl⟩ := ok
  exact Ramfs.setNode_sized sized p (sized p)

theorem ramfsStep_sized (sized : ∀ n, (fs.nodes n).Sized) (a : RamfsAction) :
    ∀ n, ((ramfsStep fs a).nodes n).Sized := by
  have create : ∀ uid path mode data,
      ∀ n, ((ramfsOpCreateFile uid fs path mode data).2.nodes n).Sized := by
    intro uid path mode data
    have sized' := ramfsResolve_sized sized path true
    simp only [ramfsOpCreateFile]
    split
    · exact ramfsStoreContent_sized sized' _ _
    · split
      · next ok =>
          have made := ramfsCreateChild_sized sized' ok
          exact ramfsStoreContent_sized (ramfsStamp_sized made _ _ _) _ _
      · exact sized'
    · exact sized'
  cases a with
  | mkdir uid path mode =>
      have sized' := ramfsResolve_sized sized path true
      simp only [ramfsStep, ramfsCall, ramfsOpMkdir]
      split
      · split <;> exact sized'
      · split
        · next ok =>
            exact ramfsStamp_sized (ramfsCreateChild_sized sized' ok) _ _ _
        · exact sized'
      · exact sized'
  | createFile uid path mode data => exact create uid path mode data
  | writeFile uid path data => exact create uid path 0 data
  | remove path =>
      simp only [ramfsStep, ramfsCall, ramfsOpRemove]
      split
      · exact sized
      split
      · split
        · exact sized
        · split
          · exact sized
          · next detach =>
              exact Ramfs.setNode_sized (ramfsDetachChild_sized sized detach) _ fun _ => rfl
      · exact sized
  | rename oldPath newPath =>
      simp only [ramfsStep, ramfsCall, ramfsOpRename]
      split
      · exact sized
      split
      · exact sized
      split
      · split
        · split
          · exact sized
          · next fs₁ detach =>
              have sized' := ramfsDetachChild_sized sized detach
              split
              · exact sized'
              · have attached : ∀ np child n,
                    ((fs₁.setNode np ((fs₁.nodes np).addChild child)).nodes n).Sized :=
                  fun np _ => Ramfs.setNode_sized sized' np (sized' np)
                refine Ramfs.setNode_sized (attached _ _) _ ?_
                exact attached _ _ _
        · exact Ramfs.setNode_sized sized _ (sized _)
      · exact sized

/-- In every state the RAM filesystem reaches its lookups show what it holds. -/
theorem ramfs_sized_along_run (reach : Reaches ramfsStep ramfsInit fs) :
    ∀ n, (fs.nodes n).Sized := by
  have keep : ∀ fs a, (∀ n, (fs.nodes n).Sized) → ∀ n, ((ramfsStep fs a).nodes n).Sized :=
    fun _ a sized => ramfsStep_sized sized a
  exact reach.invariant keep (Ramfs.setNode_sized (fun _ _ => rfl) 0 fun _ => rfl)

end Sized

end NTux.Fs
