import NTux.Sys.AccountTools
import NTux.Sys.UserDbNames

/-!
# Runs of the account tools and the kernel

The kernel asks its own tables who may log in; the tools write the files, which it reads at the
start only.  What a tool reports is therefore true afterwards exactly if it was true before
(`tool_report_iff`).

What has been reported and has not been replaced since is a list of promises.  In the runs in
which the kernel's tables are ahead of the tools, the promises hold in every state: a call for
another user or for a group does not change what is looked up under a name
(`lookup_of_call`), unless a new name is cut to 31 bytes.
-/

namespace NTux.Sys

open NTux.Lib NTux.Lib.Fields NTux.Lib.KeyedLists

/-- The two copies of the accounts. -/
structure Accounts where
  db : UserDb
  files : EtcFiles

/-- A tool is run to its end, or the kernel calls one of its operations. -/
inductive AccountOp
  | passwd (input : PasswdInput) (access : EtcAccess)
  | userdel (uid : UInt32) (username : Option CString) (access : EtcAccess)
  | useradd (uid : UInt32) (args : List CString) (access : EtcAccess)
  | kernel (call : UserCall)

/-- Whether a call that has succeeded has saved the tables: `sys_group_add_member` does not for
one who is a member. -/
def saves (db after : UserDb) : UserCall → Bool
  | .groupAddMember .. => after ≠ db
  | _ => true

/-- The state after an operation of the kernel. -/
def kernelStep (s : Accounts) (call : UserCall) : Accounts :=
  match call.result s.db with
  | none => s
  | some after => ⟨after, if saves s.db after call then sysUserSave after else s.files⟩

/-- The files after a tool. -/
def filesAfter (s : Accounts) (result : Option (CString × EtcFiles)) : Accounts :=
  { s with files := (result.map Prod.snd).getD s.files }

/-- The state afterwards. -/
def accountStep (s : Accounts) : AccountOp → Accounts
  | .passwd input access => filesAfter s (passwd s.db s.files input access)
  | .userdel uid username access => filesAfter s (userdel s.files uid username access)
  | .useradd uid args access => filesAfter s (useradd s.files uid args access)
  | .kernel call => kernelStep s call

/-- What a report means: the password of a user, or that there is no such user. -/
inductive Promise
  | accepts (name password : CString)
  | gone (name : CString)
  deriving DecidableEq

/-- The user it is about. -/
def Promise.name : Promise → CString
  | accepts name _ => name
  | gone name => name

/-- The kernel accepts the password and no other, as far as their hashes differ; or it accepts
none. -/
def Promise.Holds (db : UserDb) : Promise → Prop
  | accepts name password => sysAuthUser db name password = true ∧
      ∀ old, computeHash name old ≠ computeHash name password → sysAuthUser db name old = false
  | gone name => ∀ password, sysAuthUser db name password = false

/-- What is reported. -/
def reported (s : Accounts) : AccountOp → Option Promise
  | .passwd input access =>
      (passwd s.db s.files input access).map fun r => .accepts r.1 input.new1
  | .userdel uid username access =>
      (userdel s.files uid username access).map fun r => .gone r.1
  | .useradd uid args access =>
      (useradd s.files uid args access).map fun r => .accepts r.1 initialPassword
  | .kernel _ => none

/-- The user that a call is about. -/
def UserCall.user : UserCall → Option CString
  | userAdd name .. => some name
  | userDel name => some name
  | userSetHash name _ => some name
  | _ => none

/-- The user that an operation changes, if it succeeds. -/
def changed (s : Accounts) : AccountOp → Option CString
  | .kernel call => if (call.result s.db).isSome then call.user else none
  | op => (reported s op).map Promise.name

/-- The promises after an operation: those about its user are replaced. -/
def promisesAfter (s : Accounts) (op : AccountOp) (promises : List Promise) : List Promise :=
  promises.filter (fun p => changed s op ≠ some p.name) ++ (reported s op).toList

/-- A run: in every state all promises hold. -/
def AccountsRight : Accounts → List Promise → List AccountOp → Prop
  | s, promises, [] => ∀ p ∈ promises, p.Holds s.db
  | s, promises, op :: ops => (∀ p ∈ promises, p.Holds s.db) ∧
      AccountsRight (accountStep s op) (promisesAfter s op promises) ops

/-- The kernel lets in who knows the password, or nobody. -/
def Promise.InKernel (db : UserDb) : Promise → Prop
  | accepts name password => sysAuthUser db name password = true
  | gone name => ∀ password, sysAuthUser db name password = false

/-- The kernel is ahead of a tool that succeeds, and a new name is not cut to that of a user who
has been deleted. -/
def Ahead (s : Accounts) (promises : List Promise) : AccountOp → Prop
  | .kernel (.userAdd name ..) =>
      Promise.gone (field userMaxName name) ∈ promises → field userMaxName name = name
  | .kernel _ => True
  | op => ∀ p, reported s op = some p → p.InKernel s.db

/-- So it is all along a run. -/
def AllAhead : Accounts → List Promise → List AccountOp → Prop
  | _, _, [] => True
  | s, promises, op :: ops =>
      Ahead s promises op ∧ AllAhead (accountStep s op) (promisesAfter s op promises) ops

variable {s : Accounts} {db after : UserDb} {name : CString} {p : Promise}
  {promises : List Promise}

/-! ## Lookups -/

/-- Who is let in depends on the entry that is found. -/
theorem sysAuthUser_congr (same : sysUserGetByName after name = sysUserGetByName db name)
    (password : CString) : sysAuthUser after name password = sysAuthUser db name password := by
  unfold sysUserGetByName at same
  unfold sysAuthUser
  rw [same]

/-- One password is accepted, up to its hash. -/
theorem sysAuthUser_others {password : CString} (known : sysAuthUser db name password = true)
    {old : CString} (ne : computeHash name old ≠ computeHash name password) :
    sysAuthUser db name old = false := by
  unfold sysAuthUser at known ⊢
  split at known
  · cases known
  next u found =>
    have hash : u.passwdHash = computeHash name password := of_decide_eq_true known
    exact decide_eq_false fun same => ne (same.symm.trans hash)

theorem holds_iff_inKernel : p.Holds db ↔ p.InKernel db := by
  cases p with
  | accepts name password =>
      exact ⟨And.left, fun known => ⟨known, fun _ ne => sysAuthUser_others known ne⟩⟩
  | gone name => exact Iff.rfl

/-- A promise is about what is looked up under its name. -/
theorem Promise.Holds.congr (holds : p.Holds db)
    (same : sysUserGetByName after p.name = sysUserGetByName db p.name) : p.Holds after := by
  cases p with
  | accepts name password =>
      refine ⟨(sysAuthUser_congr same password).trans holds.1, fun old ne => ?_⟩
      exact (sysAuthUser_congr same old).trans (holds.2 old ne)
  | gone name => exact fun password => (sysAuthUser_congr same password).trans (holds password)

/-- A new hash is that of its user. -/
theorem find?_setHash {other hash : CString} (ne : other ≠ name) (users : List UserEntry) :
    (setHash name hash users).find? (fun u => u.name = other) =
      users.find? fun u => u.name = other := by
  induction users with
  | nil => rfl
  | cons u us ih =>
      unfold setHash
      split
      next same =>
        have skip : ¬ u.name = other := fun eq => ne (eq.symm.trans same)
        simp only [List.find?_cons, skip, decide_false]
      · simp only [List.find?_cons, ih]

/-- The users after a call for a group. -/
theorem users_of_group {call : UserCall} (group : call.user = none)
    (eq : call.result db = some after) : after.users = db.users := by
  cases call with
  | userAdd | userDel | userSetHash => cases group
  | groupAdd name gid =>
      have added : sysGroupAdd db name gid = some after := eq
      unfold sysGroupAdd at added
      split at added
      · cases added
      · split at added
        · cases added
        · rw [← Option.some.inj added]
  | groupDel name =>
      obtain ⟨g, -, others⟩ := sysGroupDel_others eq
      exact others.users
  | groupAddMember group uid =>
      obtain ⟨gs, -, rfl⟩ := Option.map_eq_some_iff.1 eq
      rfl
  | groupDelMember group uid =>
      obtain ⟨gs, -, rfl⟩ := Option.map_eq_some_iff.1 eq
      rfl

/-- The entry that is found under a name is not replaced by a new one. -/
theorem lookup_of_userAdd {uid gid : UInt32} {home shell hash : Option CString} {other : CString}
    (eq : sysUserAdd db name uid gid home shell hash = some after)
    (apart : sysUserGetByName db other = none → field userMaxName name ≠ other) :
    sysUserGetByName after other = sysUserGetByName db other := by
  unfold sysUserAdd at eq
  split at eq
  · cases eq
  · split at eq
    · cases eq
    · rw [← Option.some.inj eq]
      unfold sysUserGetByName at apart ⊢
      dsimp only
      rw [List.find?_append]
      cases found : db.users.find? fun u => u.name = other with
      | some u => rfl
      | none =>
          have skip := apart found
          simp only [List.find?_cons, List.find?_nil, skip, decide_false, Option.none_or]

/-- **A call for another user or for a group changes no lookup**, unless a new name is cut to
that which is looked up. -/
theorem lookup_of_call {call : UserCall} (eq : call.result db = some after)
    (other : call.user ≠ some name)
    (apart : ∀ long uid gid home shell hash, call = .userAdd long uid gid home shell hash →
      sysUserGetByName db name = none → field userMaxName long ≠ name) :
    sysUserGetByName after name = sysUserGetByName db name := by
  cases call with
  | userAdd long uid gid home shell hash =>
      exact lookup_of_userAdd eq (apart long uid gid home shell hash rfl)
  | userDel deleted =>
      obtain ⟨u, -, others⟩ := sysUserDel_others eq
      exact others.byName name fun same => other (congrArg some same.symm)
  | userSetHash user hash =>
      have set : sysUserSetHash db user hash = some after := eq
      unfold sysUserSetHash at set
      split at set
      · rw [← Option.some.inj set]
        exact find?_setHash (fun same => other (congrArg some same.symm)) _
      · cases set
  | groupAdd | groupDel | groupAddMember | groupDelMember =>
      unfold sysUserGetByName
      rw [users_of_group rfl eq]

/-! ## Steps -/

/-- The kernel's tables are not touched by a tool. -/
theorem accountStep_tool {op : AccountOp} (tool : ∀ call, op ≠ .kernel call) :
    (accountStep s op).db = s.db := by
  cases op with
  | passwd | userdel | useradd => rfl
  | kernel call => exact absurd rfl (tool call)

/-- **What a tool reports is true afterwards exactly if the kernel knew it before.** -/
theorem tool_report_iff {op : AccountOp} (report : reported s op = some p) :
    p.Holds (accountStep s op).db ↔ p.InKernel s.db := by
  have tool : ∀ call, op ≠ .kernel call := by
    rintro call rfl
    cases report
  rw [accountStep_tool tool]
  exact holds_iff_inKernel

/-- A promise that is not about the user of a call of the kernel holds after it. -/
theorem Promise.Holds.kernel {call : UserCall} (holds : p.Holds s.db) (mem : p ∈ promises)
    (ahead : Ahead s promises (.kernel call)) (other : changed s (.kernel call) ≠ some p.name) :
    p.Holds (kernelStep s call).db := by
  unfold kernelStep
  cases eq : call.result s.db with
  | none => exact holds
  | some after =>
      have user : call.user ≠ some p.name := by
        have isSome : (call.result s.db).isSome = true := by rw [eq]; rfl
        unfold changed at other
        dsimp only at other
        rwa [if_pos isSome] at other
      refine holds.congr (lookup_of_call eq user ?_)
      rintro long uid gid home shell hash rfl none same
      cases p with
      | accepts name password =>
          -- the password of a user who is not there is not accepted
          have known := holds.1
          unfold sysUserGetByName at none
          unfold sysAuthUser at known
          have none' : s.db.users.find? (fun u => u.name = name) = Option.none := none
          rw [none'] at known
          cases known
      | gone name =>
          obtain rfl : field userMaxName long = name := same
          have whole : field userMaxName long = long := ahead mem
          exact user (congrArg some whole.symm)

/-- One step of a run that is in step. -/
theorem promises_step {op : AccountOp} (all : ∀ p ∈ promises, p.Holds s.db)
    (ahead : Ahead s promises op) :
    ∀ p ∈ promisesAfter s op promises, p.Holds (accountStep s op).db := by
  intro p there
  rcases List.mem_append.1 there with old | new
  · obtain ⟨mem, other⟩ := List.mem_filter.1 old
    have ne : changed s op ≠ some p.name := of_decide_eq_true other
    cases op with
    | passwd | userdel | useradd => exact all p mem
    | kernel call => exact (all p mem).kernel mem ahead ne
  · have report : reported s op = some p := Option.mem_toList.1 new
    refine (tool_report_iff report).2 ?_
    cases op with
    | passwd | userdel | useradd => exact ahead p report
    | kernel call => cases report

/-! ## Runs -/

/-- **Account changes take effect and last in the runs in which the kernel is ahead of the
tools**; and what a tool reports is true afterwards only if it was true in the kernel before. -/
theorem accounts_right (s : Accounts) :
    (∀ ops, AllAhead s [] ops → AccountsRight s [] ops) ∧
      ∀ op p, reported s op = some p → (p.Holds (accountStep s op).db ↔ p.InKernel s.db) := by
  refine ⟨fun ops ahead => ?_, fun op p report => tool_report_iff report⟩
  have start : ∀ p ∈ ([] : List Promise), p.Holds s.db := fun p mem => absurd mem List.not_mem_nil
  generalize ([] : List Promise) = promises at start ahead
  induction ops generalizing s promises with
  | nil => exact start
  | cons op ops ih =>
      exact ⟨start, ih _ _ (promises_step start ahead.1) ahead.2⟩

/-- `"root"`. -/
def rootName : CString := [114, 111, 111, 116]

/-- `create_defaults`: root with the password `"toor"`. -/
def createDefaults : UserDb where
  users := [⟨rootName, 0, 0, 47 :: rootName, [47, 98, 105, 110, 47, 115, 104],
    computeHash rootName [116, 111, 111, 114]⟩]
  groups := [⟨rootName, 0, [0]⟩]

/-- The state after the first start. -/
def firstStart : Accounts := ⟨createDefaults, sysUserSave createDefaults⟩

/-- All files can be read and written. -/
def fullAccess : EtcAccess := ⟨true, true, true, true, true, true⟩

/-- Root types a new password twice. -/
def newRootPassword : AccountOp :=
  .passwd ⟨0, some rootName, [], [110, 101, 119], [110, 101, 119]⟩ fullAccess

theorem newRootPassword_reported :
    reported firstStart newRootPassword = some (.accepts rootName [110, 101, 119]) := by
  decide +kernel

/-- The kernel has been told of the password first, and gets a group afterwards. -/
theorem kernel_first_right : AccountsRight firstStart []
    [.kernel (.userSetHash rootName (computeHash rootName [110, 101, 119])), newRootPassword,
      .kernel (.groupAdd [119, 104, 101, 101, 108] 10)] := by
  refine (accounts_right firstStart).1 _ ⟨trivial, ⟨fun p report => ?_, trivial, trivial⟩⟩
  have same : reported (accountStep firstStart
      (.kernel (.userSetHash rootName (computeHash rootName [110, 101, 119])))) newRootPassword =
        some (.accepts rootName [110, 101, 119]) := by
    decide +kernel
  obtain rfl := Option.some.inj (same.symm.trans report)
  show sysAuthUser _ _ _ = true
  decide +kernel

/-- The new password of root is written to the file and not accepted. -/
theorem new_password_refused : ¬ AccountsRight firstStart [] [newRootPassword] := by
  rintro ⟨-, right⟩
  have mem : Promise.accepts rootName [110, 101, 119] ∈
      promisesAfter firstStart newRootPassword [] := by
    unfold promisesAfter
    rw [newRootPassword_reported]
    exact List.mem_cons_self
  have accepted := (right _ mem).1
  have refused : sysAuthUser firstStart.db rootName [110, 101, 119] = false := by decide +kernel
  exact absurd (accepted.symm.trans refused) (by decide)

end NTux.Sys
