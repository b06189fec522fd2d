import NTux.Fs.RamfsAttr
import NTux.Lib.Runs

/-!
# Who may change a directory

The law of permissions: a name is created, removed or renamed by whoever may write the
directory it is in, an existing file is read or overwritten by whoever its own attributes
let, and root may do everything (`ObeysLaw`).

`vfs_perm_check` looks at the path itself in every case.  For an existing file that is
the law.  A name that does not exist has no attributes and the check fails, whatever the
directory grants; and a removal asks the victim.  `permission_law_iff` says for which
calls the two agree.
-/

namespace NTux.Fs

open NTux.Lib

/-- Whether a mode, an owner and a group grant an access. -/
def Attr.grants (a : Attr) (who : Identity) (writeAccess : Bool) : Bool :=
  if a.uid = who.uid then a.mode &&& (if writeAccess then 0o200 else 0o400) != 0
  else if a.gid = who.gid then a.mode &&& (if writeAccess then 0o020 else 0o040) != 0
  else a.mode &&& (if writeAccess then 0o002 else 0o004) != 0

/-- The calls on paths. -/
inductive PathCall
  | mkdir (path : CString) (mode : UInt16)
  | createFile (path : CString) (mode : UInt16) (data : List UInt8)
  | writeFile (path : CString) (data : List UInt8)
  | readFile (path : CString) (cap : Option Nat)
  | remove (path : CString)
  | rename (oldPath newPath : CString)
  | chmod (path : CString) (mode : UInt16)
  | chown (path : CString) (uid gid : UInt32)

/-- The VFS over the RAM filesystem, as the thread sees it. -/
def vfsOver (who : Identity) (fs : Ramfs) : Vfs Ramfs :=
  ⟨[ramfsRootMount who.uid.toNat], fs, []⟩

/-- A call for a thread: its code, and the filesystem it leaves. -/
def pathCall (who : Identity) (fs : Ramfs) : PathCall → Int × Ramfs
  | .mkdir path mode => (vfsMkdir who (vfsOver who fs) path mode).map id Vfs.store
  | .createFile path mode data =>
      (vfsCreateFile who (vfsOver who fs) path mode data).map id Vfs.store
  | .writeFile path data => (vfsWriteFile who (vfsOver who fs) path data).map id Vfs.store
  | .readFile path cap => (vfsReadFile who (vfsOver who fs) path cap).map ReadOutcome.rc Vfs.store
  | .remove path => (vfsRemove who (vfsOver who fs) path).map id Vfs.store
  | .rename oldPath newPath => (vfsRename who (vfsOver who fs) oldPath newPath).map id Vfs.store
  | .chmod path mode => (vfsChmod who (vfsOver who fs) path mode).map id Vfs.store
  | .chown path uid gid => (vfsChown who (vfsOver who fs) path uid gid).map id Vfs.store

/-- One call of one thread. -/
def pathStep (fs : Ramfs) (a : Identity × PathCall) : Ramfs := (pathCall a.1 fs a.2).2

/-- The call succeeds. -/
def Succeeds (who : Identity) (fs : Ramfs) (call : PathCall) : Prop := (pathCall who fs call).1 = 0

/-- Root, of whatever group. -/
def asRoot (who : Identity) : Identity := ⟨0, who.gid⟩

/-! ## The law -/

/-- The attributes of what the path leads to grant the access. -/
def selfGrants (who : Identity) (fs : Ramfs) (path : CString) (writeAccess : Bool) : Bool :=
  (ramfsOpGetattr fs path).any fun a => a.grants who writeAccess

/-- The directory the path's last name is in grants writing. -/
def parentGrants (who : Identity) (fs : Ramfs) (path : CString) : Bool :=
  (ramfsResolve fs path false).parent.any fun p => (fs.nodes p).attr.grants who true

/-- What the law asks of the attributes. -/
def Granted (who : Identity) (fs : Ramfs) : PathCall → Bool
  | .mkdir path _ => parentGrants who fs path
  | .createFile path _ _ | .writeFile path _ =>
      if (ramfsOpGetattr fs path).isSome then selfGrants who fs path true
      else parentGrants who fs path
  | .readFile path _ => selfGrants who fs path false
  | .remove path => parentGrants who fs path
  | .rename oldPath newPath => parentGrants who fs oldPath && parentGrants who fs newPath
  | .chmod _ _ | .chown _ _ _ => false

/-- The calls that the law is about. -/
def PathCall.Governed : PathCall → Prop
  | .chmod _ _ | .chown _ _ _ => False
  | _ => True

/-- The law: root may do what can be done, and others where the attributes grant it. -/
def ObeysLaw (fs : Ramfs) (a : Identity × PathCall) : Prop :=
  a.2.Governed → (Succeeds a.1 fs a.2 ↔
    Succeeds (asRoot a.1) fs a.2 ∧ (a.1.uid = 0 ∨ Granted a.1 fs a.2 = true))

/-- Where the check of the path itself comes to the same: for an existing file; for a name
that is there, where its attributes grant what the directory's grant; for a name that is
not, or that a rename would give, where the directory grants nothing. -/
def CheckAgrees (who : Identity) (fs : Ramfs) : PathCall → Prop
  | .mkdir path _ =>
      if (ramfsOpGetattr fs path).isSome then
        selfGrants who fs path true = parentGrants who fs path
      else parentGrants who fs path = false
  | .createFile path _ _ | .writeFile path _ =>
      (ramfsOpGetattr fs path).isSome ∨ parentGrants who fs path = false
  | .readFile _ _ => True
  | .remove path => selfGrants who fs path true = parentGrants who fs path
  | .rename oldPath newPath =>
      parentGrants who fs oldPath = false ∨ parentGrants who fs newPath = false
  | .chmod _ _ | .chown _ _ _ => True

/-- The calls on which the code obeys the law: root's, those that root could not do either,
and those where the check agrees. -/
def LawServed (fs : Ramfs) (a : Identity × PathCall) : Prop :=
  a.1.uid = 0 ∨ ¬ Succeeds (asRoot a.1) fs a.2 ∨ CheckAgrees a.1 fs a.2

/-! ## The check -/

section Check

variable {who : Identity} {fs : Ramfs} {path : CString}

theorem vfsGetattr_vfsOver (who : Identity) (fs : Ramfs) (absolute : path.head? = some slash) :
    vfsGetattr (vfsOver who fs) path = ramfsOpGetattr fs path := by
  rw [vfsGetattr, vfsOver, vfsFindMount_root _ absolute]
  rfl

/-- `vfs_perm_check` asks the attributes of the path. -/
theorem vfsPermCheck_eq (user : who.uid ≠ 0) (absolute : path.head? = some slash) (w : Bool) :
    vfsPermCheck who (vfsOver who fs) path w = selfGrants who fs path w := by
  have bit : ∀ m b : UInt16, 0o777 &&& b = b → m &&& 0o777 &&& b = m &&& b := by
    intro m b low
    rw [UInt16.and_assoc, low]
  rw [vfsPermCheck, if_neg user, vfsGetattr_vfsOver who fs absolute, selfGrants]
  cases ramfsOpGetattr fs path with
  | none => rfl
  | some a =>
      simp only [Option.any_some, Attr.grants]
      cases w with
      | true => simp only [if_true, bit _ 0o200 (by decide), bit _ 0o020 (by decide),
          bit _ 0o002 (by decide)]
      | false => simp only [Bool.false_eq_true, if_false, bit _ 0o400 (by decide),
          bit _ 0o040 (by decide), bit _ 0o004 (by decide)]

theorem vfsPermCheck_root (who : Identity) (v : Vfs Ramfs) (path : CString) (w : Bool) :
    vfsPermCheck (asRoot who) v path w = true := if_pos rfl

/-- Without a leading slash a path belongs to no mount. -/
theorem vfsFindMount_relative (uid : Nat) (relative : path.head? ≠ some slash) :
    vfsFindMount [ramfsRootMount uid] path = none := by
  have outside : vfsPathIsPrefix [slash] path = false := by
    cases path with
    | nil => rfl
    | cons c path =>
        have ne : slash ≠ c := fun same => relative (by rw [same]; rfl)
        simp [vfsPathIsPrefix, List.isPrefixOf, ne]
  rw [vfsFindMount, List.foldl_cons, List.foldl_nil, betterMount, if_neg]
  · rfl
  · rw [show (ramfsRootMount uid).mountPoint = [slash] from rfl, outside]
    simp

/-- A change goes through where the check lets it and the backend does it. -/
theorem vfsChange_over {op : VfsOps Ramfs → Option (Ramfs → CString → Int × Ramfs)}
    {f : Ramfs → CString → Int × Ramfs} (has : op (ramfsOps who.uid.toNat) = some f) :
    (vfsChange op who (vfsOver who fs) path).1 = 0 ↔
      path.head? = some slash ∧ vfsPermCheck who (vfsOver who fs) path true = true ∧
        (f fs path).1 = 0 := by
  unfold vfsChange
  by_cases allowed : vfsPermCheck who (vfsOver who fs) path true = true
  · rw [if_pos allowed]
    by_cases absolute : path.head? = some slash
    · have mount : vfsFindMount (vfsOver who fs).mounts path =
          some (ramfsRootMount who.uid.toNat, path) := vfsFindMount_root _ absolute
      have has' : op (ramfsRootMount who.uid.toNat).ops = some f := has
      rw [mount]
      simp only [has', absolute, allowed, true_and]
      exact Iff.rfl
    · have mount : vfsFindMount (vfsOver who fs).mounts path = none :=
        vfsFindMount_relative _ absolute
      rw [mount]
      simp [absolute]
  · rw [if_neg allowed]
    simp [allowed]

/-- A read goes through where the check lets it and the backend does it. -/
theorem vfsReadFile_over (cap : Option Nat) :
    (vfsReadFile who (vfsOver who fs) path cap).1.rc = 0 ↔
      path.head? = some slash ∧ vfsPermCheck who (vfsOver who fs) path false = true ∧
        (ramfsOpReadFile fs path cap).rc = 0 := by
  unfold vfsReadFile
  by_cases allowed : vfsPermCheck who (vfsOver who fs) path false = true
  · rw [if_pos allowed]
    by_cases absolute : path.head? = some slash
    · have mount : vfsFindMount (vfsOver who fs).mounts path =
          some (ramfsRootMount who.uid.toNat, path) := vfsFindMount_root _ absolute
      rw [mount]
      simp only [absolute, allowed, true_and]
      exact Iff.rfl
    · have mount : vfsFindMount (vfsOver who fs).mounts path = none :=
        vfsFindMount_relative _ absolute
      rw [mount]
      simp [absolute, readFailure]
  · rw [if_neg allowed]
    simp [allowed, readFailure]

/-- A rename goes through where the check lets both paths and the backend does it. -/
theorem vfsRename_over {newPath : CString} :
    (vfsRename who (vfsOver who fs) path newPath).1 = 0 ↔
      path.head? = some slash ∧ newPath.head? = some slash ∧
        (vfsPermCheck who (vfsOver who fs) path true = true ∧
          vfsPermCheck who (vfsOver who fs) newPath true = true) ∧
        (ramfsOpRename fs path newPath).1 = 0 := by
  unfold vfsRename
  by_cases allowed : (vfsPermCheck who (vfsOver who fs) path true &&
      vfsPermCheck who (vfsOver who fs) newPath true) = true
  · rw [if_pos allowed]
    have both := Bool.and_eq_true_iff.1 allowed
    by_cases absolute : path.head? = some slash
    · have mount : vfsFindMount (vfsOver who fs).mounts path =
          some (ramfsRootMount who.uid.toNat, path) := vfsFindMount_root _ absolute
      by_cases absolute' : newPath.head? = some slash
      · have mount' : vfsFindMount (vfsOver who fs).mounts newPath =
            some (ramfsRootMount who.uid.toNat, newPath) := vfsFindMount_root _ absolute'
        rw [mount, mount']
        simp only [absolute, absolute', both, true_and, and_self]
        exact Iff.rfl
      · have mount' : vfsFindMount (vfsOver who fs).mounts newPath = none :=
          vfsFindMount_relative _ absolute'
        rw [mount, mount']
        simp [absolute']
    · have mount : vfsFindMount (vfsOver who fs).mounts path = none :=
        vfsFindMount_relative _ absolute
      rw [mount]
      simp [absolute]
  · rw [if_neg allowed]
    simp only [Bool.and_eq_true] at allowed
    simp [allowed]

/-! ## The identity in the backend -/

/-- The code of storing bytes in a node. -/
theorem ramfsStoreContent_code (fs : Ramfs) (node : Nat) (data : List UInt8) :
    (ramfsStoreContent fs node data).1 =
      if (fs.nodes node).type ≠ .file then -3
      else if data.length = 0 then 0
      else if data.length ≤ (fs.nodes node).capacity then
        if (fs.nodes node).data.isSome then 0 else -4
      else if ramfsMaxFileBytes < fs.filePoolUsed + data.length then -4 else 0 := by
  unfold ramfsStoreContent ramfsAllocBytes
  dsimp only
  split
  · rfl
  split
  · rfl
  by_cases fits : data.length ≤ (fs.nodes node).capacity
  · simp only [if_pos fits]
    cases (fs.nodes node).data with
    | none => rfl
    | some off => rfl
  · simp only [if_neg fits]
    by_cases full : ramfsMaxFileBytes < fs.filePoolUsed + data.length
    · simp only [if_pos full]
    · simp only [if_neg full]

/-- Whether bytes are stored does not depend on who made the file. -/
theorem ramfsStoreContent_stamp (node mode uid : Nat) (data : List UInt8) :
    (ramfsStoreContent (ramfsStamp fs node mode uid) node data).1 =
      (ramfsStoreContent (ramfsStamp fs node mode 0) node data).1 := by
  rw [ramfsStoreContent_code, ramfsStoreContent_code, ramfsStamp, ramfsStamp,
    Ramfs.setNode_nodes_self, Ramfs.setNode_nodes_self]
  rfl

theorem ramfsOpCreateFile_code (uid : Nat) (mode : Nat) (data : List UInt8) :
    (ramfsOpCreateFile uid fs path mode data).1 = (ramfsOpCreateFile 0 fs path mode data).1 := by
  unfold ramfsOpCreateFile
  dsimp only
  split
  · rfl
  · split
    · exact ramfsStoreContent_stamp _ _ _ _
    · rfl
  · rfl

theorem ramfsOpMkdir_code (uid : Nat) (mode : Nat) :
    (ramfsOpMkdir uid fs path mode).1 = (ramfsOpMkdir 0 fs path mode).1 := by
  unfold ramfsOpMkdir
  dsimp only
  split
  · split <;> rfl
  · split <;> rfl
  · rfl

/-! ## The law and the check -/

/-- A call of one check and one backend operation: a user other than root succeeds exactly
if root would and the check of the path lets the user. -/
theorem succeeds_iff_self {w : Bool} {call : PathCall} {code : Nat → Int}
    (user : who.uid ≠ 0)
    (through : ∀ who : Identity, Succeeds who fs call ↔ path.head? = some slash ∧
      vfsPermCheck who (vfsOver who fs) path w = true ∧ code who.uid.toNat = 0)
    (same : ∀ uid, code uid = code 0) :
    Succeeds who fs call ↔
      Succeeds (asRoot who) fs call ∧ selfGrants who fs path w = true := by
  rw [through, through, vfsPermCheck_root, same, same (asRoot who).uid.toNat]
  constructor
  · rintro ⟨absolute, allowed, done⟩
    rw [vfsPermCheck_eq user absolute] at allowed
    exact ⟨⟨absolute, rfl, done⟩, allowed⟩
  · rintro ⟨⟨absolute, -, done⟩, allowed⟩
    rw [vfsPermCheck_eq user absolute]
    exact ⟨absolute, allowed, done⟩

/-- What is missing grants nothing. -/
theorem selfGrants_of_missing {w : Bool} (missing : (ramfsOpGetattr fs path).isSome = false) :
    selfGrants who fs path w = false := by
  rw [selfGrants, Option.isSome_eq_false_iff.1 missing |> Option.isNone_iff_eq_none.1]
  rfl

/-- A rename gives a name that was missing. -/
theorem ramfsOpRename_target {newPath : CString} (done : (ramfsOpRename fs path newPath).1 = 0) :
    (ramfsOpGetattr fs newPath).isSome = false := by
  unfold ramfsOpRename at done
  split at done
  · exact absurd done (by simp)
  split at done
  · exact absurd done (by simp)
  dsimp only at done
  split at done
  next missing => rw [ramfsOpGetattr, missing]; rfl
  · exact absurd done (by simp)

/-- For a call whose success turns on the attributes of its path. -/
theorem obeys_iff_of_self {call : PathCall} {w : Bool} (user : who.uid ≠ 0)
    (self : Succeeds who fs call ↔
      Succeeds (asRoot who) fs call ∧ selfGrants who fs path w = true)
    (governed : call.Governed)
    (agrees : Succeeds (asRoot who) fs call →
      (CheckAgrees who fs call ↔ selfGrants who fs path w = Granted who fs call)) :
    ObeysLaw fs (who, call) ↔ LawServed fs (who, call) := by
  unfold ObeysLaw LawServed
  simp only [user, false_or, governed, forall_const, self]
  by_cases root : Succeeds (asRoot who) fs call
  · simp only [root, true_and, not_true, false_or, agrees root]
    cases selfGrants who fs path w <;> cases Granted who fs call <;> simp
  · simp [root]

/-! ### Each call -/

theorem mkdir_self (user : who.uid ≠ 0) (mode : UInt16) :
    Succeeds who fs (.mkdir path mode) ↔
      Succeeds (asRoot who) fs (.mkdir path mode) ∧ selfGrants who fs path true = true := by
  have through : ∀ who : Identity, Succeeds who fs (.mkdir path mode) ↔ path.head? = some slash ∧
      vfsPermCheck who (vfsOver who fs) path true = true ∧
        (ramfsOpMkdir who.uid.toNat fs path mode.toNat).1 = 0 := by
    intro who
    show (vfsMkdir who (vfsOver who fs) path mode).1 = 0 ↔ _
    exact vfsChange_over (f := fun st rel => ramfsOpMkdir who.uid.toNat st rel mode.toNat) rfl
  exact succeeds_iff_self user through fun uid => ramfsOpMkdir_code uid mode.toNat

theorem createFile_self (user : who.uid ≠ 0) (mode : UInt16) (data : List UInt8) :
    Succeeds who fs (.createFile path mode data) ↔
      Succeeds (asRoot who) fs (.createFile path mode data) ∧
        selfGrants who fs path true = true := by
  have through : ∀ who : Identity, Succeeds who fs (.createFile path mode data) ↔
      path.head? = some slash ∧ vfsPermCheck who (vfsOver who fs) path true = true ∧
        (ramfsOpCreateFile who.uid.toNat fs path mode.toNat data).1 = 0 := by
    intro who
    show (vfsCreateFile who (vfsOver who fs) path mode data).1 = 0 ↔ _
    exact vfsChange_over (f := fun st rel =>
      ramfsOpCreateFile who.uid.toNat st rel mode.toNat data) rfl
  exact succeeds_iff_self user through fun uid => ramfsOpCreateFile_code uid mode.toNat data

theorem writeFile_self (user : who.uid ≠ 0) (data : List UInt8) :
    Succeeds who fs (.writeFile path data) ↔
      Succeeds (asRoot who) fs (.writeFile path data) ∧ selfGrants who fs path true = true := by
  have through : ∀ who : Identity, Succeeds who fs (.writeFile path data) ↔
      path.head? = some slash ∧ vfsPermCheck who (vfsOver who fs) path true = true ∧
        (ramfsOpCreateFile who.uid.toNat fs path 0 data).1 = 0 := by
    intro who
    show (vfsWriteFile who (vfsOver who fs) path data).1 = 0 ↔ _
    exact vfsChange_over (f := fun st rel => ramfsOpWriteFile who.uid.toNat st rel data) rfl
  exact succeeds_iff_self user through fun uid => ramfsOpCreateFile_code uid 0 data

theorem remove_self (user : who.uid ≠ 0) :
    Succeeds who fs (.remove path) ↔
      Succeeds (asRoot who) fs (.remove path) ∧ selfGrants who fs path true = true := by
  have through : ∀ who : Identity, Succeeds who fs (.remove path) ↔ path.head? = some slash ∧
      vfsPermCheck who (vfsOver who fs) path true = true ∧ (ramfsOpRemove fs path).1 = 0 := by
    intro who
    show (vfsRemove who (vfsOver who fs) path).1 = 0 ↔ _
    exact vfsChange_over rfl
  have same : ∀ _uid : Nat, (ramfsOpRemove fs path).1 = (ramfsOpRemove fs path).1 := fun _ => rfl
  exact succeeds_iff_self user through same

theorem readFile_self (user : who.uid ≠ 0) (cap : Option Nat) :
    Succeeds who fs (.readFile path cap) ↔
      Succeeds (asRoot who) fs (.readFile path cap) ∧ selfGrants who fs path false = true := by
  have through : ∀ who : Identity, Succeeds who fs (.readFile path cap) ↔ path.head? = some slash ∧
      vfsPermCheck who (vfsOver who fs) path false = true ∧
        (ramfsOpReadFile fs path cap).rc = 0 := fun who => vfsReadFile_over cap
  have same : ∀ _uid : Nat, (ramfsOpReadFile fs path cap).rc = (ramfsOpReadFile fs path cap).rc :=
    fun _ => rfl
  exact succeeds_iff_self user through same

/-- No user but root renames anything. -/
theorem not_rename (user : who.uid ≠ 0) {newPath : CString} :
    ¬ Succeeds who fs (.rename path newPath) := by
  intro done
  obtain ⟨-, absolute, ⟨-, allowed⟩, renamed⟩ := vfsRename_over.1 done
  rw [vfsPermCheck_eq user absolute, selfGrants_of_missing (ramfsOpRename_target renamed)] at allowed
  exact absurd allowed (by simp)

/-- What is stored has attributes afterwards only; a name that is missing is refused. -/
theorem write_agrees {call : PathCall} (granted : Granted who fs call =
      if (ramfsOpGetattr fs path).isSome then selfGrants who fs path true
      else parentGrants who fs path) :
    ((ramfsOpGetattr fs path).isSome = true ∨ parentGrants who fs path = false ↔
      selfGrants who fs path true = Granted who fs call) := by
  rw [granted]
  cases present : (ramfsOpGetattr fs path).isSome with
  | true => simp
  | false =>
      rw [selfGrants_of_missing present]
      simp only [Bool.false_eq_true, if_false, false_or]
      exact eq_comm

/-- On every call the code obeys the law exactly if root would fail too or the check of
the path agrees with the law. -/
theorem obeysLaw_iff (fs : Ramfs) (a : Identity × PathCall) : ObeysLaw fs a ↔ LawServed fs a := by
  obtain ⟨who, call⟩ := a
  by_cases root : who.uid = 0
  · have same : Succeeds who fs call ↔ Succeeds (asRoot who) fs call := by
      rw [show who = asRoot who from by rw [asRoot, ← root]]
      exact Iff.rfl
    simp [ObeysLaw, LawServed, root, same]
  cases call with
  | mkdir path mode =>
      refine obeys_iff_of_self root (mkdir_self root mode) trivial fun _ => ?_
      show (if (ramfsOpGetattr fs path).isSome then
          selfGrants who fs path true = parentGrants who fs path
        else parentGrants who fs path = false) ↔
          selfGrants who fs path true = parentGrants who fs path
      cases present : (ramfsOpGetattr fs path).isSome with
      | true => simp
      | false =>
          rw [selfGrants_of_missing present]
          simp only [Bool.false_eq_true, if_false]
          exact eq_comm
  | createFile path mode data =>
      exact obeys_iff_of_self root (createFile_self root mode data) trivial
        fun _ => write_agrees rfl
  | writeFile path data =>
      exact obeys_iff_of_self root (writeFile_self root data) trivial fun _ => write_agrees rfl
  | readFile path cap =>
      exact obeys_iff_of_self root (readFile_self root cap) trivial fun _ => iff_of_true trivial rfl
  | remove path => exact obeys_iff_of_self root (remove_self root) trivial fun _ => Iff.rfl
  | rename oldPath newPath =>
      have refused : ¬ Succeeds who fs (.rename oldPath newPath) := not_rename root
      simp only [ObeysLaw, LawServed, PathCall.Governed, forall_const, refused, root, false_or,
        false_iff, not_and, Granted, CheckAgrees]
      rw [Bool.and_eq_true, not_and_or, Bool.not_eq_true, Bool.not_eq_true, imp_iff_not_or]
  | chmod path mode =>
      exact iff_of_true (fun governed => absurd governed id) (.inr (.inr trivial))
  | chown path uid gid =>
      exact iff_of_true (fun governed => absurd governed id) (.inr (.inr trivial))

end Check

/-- Every run of calls of any users obeys the law exactly as long as the check of the
path agrees with it. -/
theorem permission_law_iff (fs : Ramfs) (calls : List (Identity × PathCall)) :
    AllSteps pathStep ObeysLaw fs calls ↔ AllSteps pathStep LawServed fs calls := by
  have same : ∀ fs a, True → (ObeysLaw fs a ↔ LawServed fs a) := fun fs a _ => obeysLaw_iff fs a
  exact allSteps_iff_of_invariant (fun _ _ _ _ => trivial) same trivial

instance (who : Identity) (fs : Ramfs) (call : PathCall) : Decidable (Succeeds who fs call) :=
  inferInstanceAs (Decidable (_ = _))

/-- Root makes a directory that everyone may write; a user cannot make a file in it. -/
theorem directory_grant_ignored :
    ¬ ∀ (fs : Ramfs) (calls : List (Identity × PathCall)), AllSteps pathStep ObeysLaw fs calls := by
  intro always
  have run := always ramfsInit [(⟨0, 0⟩, .mkdir [slash, 0x64] 0o777),
    (⟨5, 5⟩, .createFile [slash, 0x64, slash, 0x66] 0 [])]
  have denied : ¬ Succeeds ⟨5, 5⟩ (pathStep ramfsInit (⟨0, 0⟩, .mkdir [slash, 0x64] 0o777))
      (.createFile [slash, 0x64, slash, 0x66] 0 []) := by decide +kernel
  have possible : Succeeds (asRoot ⟨5, 5⟩) (pathStep ramfsInit (⟨0, 0⟩, .mkdir [slash, 0x64] 0o777))
      (.createFile [slash, 0x64, slash, 0x66] 0 []) := by decide +kernel
  have granted : Granted ⟨5, 5⟩ (pathStep ramfsInit (⟨0, 0⟩, .mkdir [slash, 0x64] 0o777))
      (.createFile [slash, 0x64, slash, 0x66] 0 []) = true := by decide +kernel
  exact denied ((run.2.1 trivial).2 ⟨possible, .inr granted⟩)

end NTux.Fs
