import NTux.Lib.Runs
import NTux.Sys.UserDbShadow

/-!
# Saving and loading the user database

The operations on the tables keep the sizes of the fields (`sized_along_run`) and accept
any characters in them.  `user_db_restored_iff` says which of the databases that can be
reached are loaded as they were saved; `user_db_not_restored` is one that is not, and in
which a user has become root.
-/

namespace NTux.Sys

open NTux.Lib NTux.Lib.Fields

/-! ## Runs of operations -/

/-- A call of an operation. -/
inductive UserCall
  | userAdd (name : CString) (uid gid : UInt32) (home shell hash : Option CString)
  | userDel (name : CString)
  | userSetHash (name hash : CString)
  | groupAdd (name : CString) (gid : UInt32)
  | groupDel (name : CString)
  | groupAddMember (group : CString) (uid : UInt32)
  | groupDelMember (group : CString) (uid : UInt32)

/-- What the call returns: the tables, or nothing where it fails. -/
def UserCall.result (db : UserDb) : UserCall → Option UserDb
  | userAdd name uid gid home shell hash => sysUserAdd db name uid gid home shell hash
  | userDel name => sysUserDel db name
  | userSetHash name hash => sysUserSetHash db name hash
  | groupAdd name gid => sysGroupAdd db name gid
  | groupDel name => sysGroupDel db name
  | groupAddMember group uid => sysGroupAddMember db group uid
  | groupDelMember group uid => sysGroupDelMember db group uid

/-- A call that fails changes nothing. -/
def userStep (db : UserDb) (call : UserCall) : UserDb := (call.result db).getD db

/-- The tables are those that `sys_user_init` can start from, or have been made from them. -/
structure SizedDb (db : UserDb) : Prop where
  users : ∀ u ∈ db.users, SizedUser u
  groups : ∀ g ∈ db.groups, SizedGroup g
  fewUsers : db.users.length ≤ userDbMax
  fewGroups : db.groups.length ≤ userDbMax

theorem field_length_lt {cap : Nat} (pos : 0 < cap) (s : CString) : (field cap s).length < cap := by
  rw [field, List.length_take]
  omega

/-! ### What is loaded -/

/-- A property that every user keeps when it gets a hash that has another property. -/
theorem setHash_keeps {P : UserEntry → Prop} {name hash : CString} {users : List UserEntry}
    (keep : ∀ u, P u → P { u with passwdHash := field userMaxPass hash }) (all : ∀ u ∈ users, P u) :
    ∀ u ∈ setHash name hash users, P u := by
  induction users with
  | nil => exact all
  | cons u us ih =>
      rw [List.forall_mem_cons] at all
      unfold setHash
      split
      · exact List.forall_mem_cons.2 ⟨keep u all.1, all.2⟩
      · exact List.forall_mem_cons.2 ⟨all.1, ih all.2⟩

theorem setHash_length (name hash : CString) (users : List UserEntry) :
    (setHash name hash users).length = users.length := by
  induction users with
  | nil => rfl
  | cons u us ih =>
      unfold setHash
      split
      · rfl
      · rw [List.length_cons, ih, List.length_cons]

theorem setHashes_keeps {P : UserEntry → Prop} {es : List (CString × CString)}
    {users : List UserEntry}
    (keep : ∀ u, ∀ r ∈ es, P u → P { u with passwdHash := field userMaxPass r.2 })
    (all : ∀ u ∈ users, P u) : ∀ u ∈ setHashes es users, P u := by
  induction es generalizing users with
  | nil => exact all
  | cons r es ih =>
      exact ih (fun u r mem => keep u r (List.mem_cons_of_mem _ mem))
        (setHash_keeps (fun u => keep u r (List.mem_cons_self ..)) all)

theorem setHashes_length (es : List (CString × CString)) (users : List UserEntry) :
    (setHashes es users).length = users.length := by
  induction es generalizing users with
  | nil => rfl
  | cons r es ih => exact (ih _).trans (setHash_length _ _ _)

theorem setHashes_withoutHash (es : List (CString × CString)) (users : List UserEntry) :
    (setHashes es users).map withoutHash = users.map withoutHash := by
  induction users generalizing es with
  | nil => rw [setHashes_nil]
  | cons u us ih =>
      rw [setHashes_cons, List.map_cons, List.map_cons, ih]
      rfl

theorem mem_loadPasswd {text : CString} {u : UserEntry} (mem : u ∈ loadPasswd text) :
    ∃ line, newline ∉ line ∧ parseUser line = some u := by
  obtain ⟨line, mem, eq⟩ := List.mem_filterMap.1 (List.mem_of_mem_take mem)
  exact ⟨line, notMem_of_mem_pieces mem, eq⟩

theorem mem_loadGroup {text : CString} {g : GroupEntry} (mem : g ∈ loadGroup text) :
    ∃ line, newline ∉ line ∧ parseGroup line = some g := by
  obtain ⟨line, mem, eq⟩ := List.mem_filterMap.1 (List.mem_of_mem_take mem)
  exact ⟨line, notMem_of_mem_pieces mem, eq⟩

theorem sizedUser_of_parse {line : CString} {u : UserEntry} (eq : parseUser line = some u) :
    SizedUser u := by
  unfold parseUser at eq
  obtain ⟨⟨name, uid, gid, home, shell⟩, -, rfl⟩ := Option.map_eq_some_iff.1 eq
  exact ⟨field_length_lt (by decide) _, field_length_lt (by decide) _,
    field_length_lt (by decide) _, show 0 < userMaxPass by decide⟩

theorem sizedGroup_of_parse {line : CString} {g : GroupEntry} (eq : parseGroup line = some g) :
    SizedGroup g := by
  unfold parseGroup at eq
  obtain ⟨⟨name, gid, members⟩, -, rfl⟩ := Option.map_eq_some_iff.1 eq
  exact ⟨field_length_lt (by decide) _, List.length_take_le _ _⟩

theorem sized_sysUserLoad (files : EtcFiles) : SizedDb (sysUserLoad files) where
  users := by
    refine setHashes_keeps (fun u r _ sized => ?_) fun u mem => ?_
    · exact ⟨sized.name, sized.home, sized.shell, field_length_lt (by decide) _⟩
    · obtain ⟨line, -, eq⟩ := mem_loadPasswd mem
      exact sizedUser_of_parse eq
  groups g mem := by
    obtain ⟨line, -, eq⟩ := mem_loadGroup mem
    exact sizedGroup_of_parse eq
  fewUsers := by
    show (setHashes _ _).length ≤ _
    rw [setHashes_length]
    exact List.length_take_le _ _
  fewGroups := List.length_take_le _ _

/-! ### What the operations keep -/

theorem updateGroup_keeps {P : GroupEntry → Prop} {name : CString}
    {f : GroupEntry → Option GroupEntry} {gs gs' : List GroupEntry}
    (eq : updateGroup name f gs = some gs') (keep : ∀ g g', P g → f g = some g' → P g')
    (all : ∀ g ∈ gs, P g) : gs'.length = gs.length ∧ ∀ g ∈ gs', P g := by
  induction gs generalizing gs' with
  | nil => exact absurd eq (by simp [updateGroup])
  | cons g gs ih =>
      rw [List.forall_mem_cons] at all
      unfold updateGroup at eq
      split at eq
      · obtain ⟨g', changed, rfl⟩ := Option.map_eq_some_iff.1 eq
        exact ⟨rfl, List.forall_mem_cons.2 ⟨keep g g' all.1 changed, all.2⟩⟩
      · obtain ⟨rest, changed, rfl⟩ := Option.map_eq_some_iff.1 eq
        obtain ⟨length, kept⟩ := ih changed all.2
        exact ⟨by rw [List.length_cons, length, List.length_cons],
          List.forall_mem_cons.2 ⟨all.1, kept⟩⟩

theorem sized_result {db db' : UserDb} {call : UserCall} (sized : SizedDb db)
    (eq : call.result db = some db') : SizedDb db' := by
  cases call with
  | userAdd name uid gid home shell hash =>
      simp only [UserCall.result, sysUserAdd] at eq
      split at eq
      · exact absurd eq (by simp)
      next room =>
        split at eq
        · exact absurd eq (by simp)
        · obtain rfl := Option.some.inj eq
          rw [not_or] at room
          refine ⟨fun u mem => ?_, sized.groups, ?_, sized.fewGroups⟩
          · rcases List.mem_append.1 mem with mem | mem
            · exact sized.users u mem
            · obtain rfl := List.mem_singleton.1 mem
              exact ⟨field_length_lt (by decide) _, field_length_lt (by decide) _,
                field_length_lt (by decide) _, field_length_lt (by decide) _⟩
          · show (db.users ++ _).length ≤ _
            rw [List.length_append, List.length_singleton]
            omega
  | userDel name =>
      simp only [UserCall.result, sysUserDel] at eq
      split at eq
      · obtain rfl := Option.some.inj eq
        exact ⟨fun u mem => sized.users u (List.mem_of_mem_eraseP mem), sized.groups,
          Nat.le_trans (List.length_eraseP_le ..) sized.fewUsers, sized.fewGroups⟩
      · exact absurd eq (by simp)
  | userSetHash name hash =>
      simp only [UserCall.result, sysUserSetHash] at eq
      split at eq
      · obtain rfl := Option.some.inj eq
        refine ⟨setHash_keeps (fun u sized => ?_) sized.users, sized.groups, ?_, sized.fewGroups⟩
        · exact ⟨sized.name, sized.home, sized.shell, field_length_lt (by decide) _⟩
        · show (setHash _ _ _).length ≤ _
          rw [setHash_length]
          exact sized.fewUsers
      · exact absurd eq (by simp)
  | groupAdd name gid =>
      simp only [UserCall.result, sysGroupAdd] at eq
      split at eq
      · exact absurd eq (by simp)
      next room =>
        split at eq
        · exact absurd eq (by simp)
        · obtain rfl := Option.some.inj eq
          rw [not_or] at room
          refine ⟨sized.users, fun g mem => ?_, sized.fewUsers, ?_⟩
          · rcases List.mem_append.1 mem with mem | mem
            · exact sized.groups g mem
            · obtain rfl := List.mem_singleton.1 mem
              exact ⟨field_length_lt (by decide) _, Nat.zero_le _⟩
          · show (db.groups ++ _).length ≤ _
            rw [List.length_append, List.length_singleton]
            omega
  | groupDel name =>
      simp only [UserCall.result, sysGroupDel] at eq
      split at eq
      · obtain rfl := Option.some.inj eq
        exact ⟨sized.users, fun g mem => sized.groups g (List.mem_of_mem_eraseP mem),
          sized.fewUsers, Nat.le_trans (List.length_eraseP_le ..) sized.fewGroups⟩
      · exact absurd eq (by simp)
  | groupAddMember group uid =>
      obtain ⟨gs, changed, rfl⟩ := Option.map_eq_some_iff.1 eq
      obtain ⟨length, kept⟩ := updateGroup_keeps (P := SizedGroup) changed (fun g g' sized eq => by
        split at eq
        · exact absurd eq (by simp)
        next room =>
          split at eq <;> obtain rfl := Option.some.inj eq
          · exact sized
          · refine ⟨sized.name, ?_⟩
            rw [List.length_append, List.length_singleton]
            omega) sized.groups
      exact ⟨sized.users, kept, sized.fewUsers, by rw [length]; exact sized.fewGroups⟩
  | groupDelMember group uid =>
      obtain ⟨gs, changed, rfl⟩ := Option.map_eq_some_iff.1 eq
      obtain ⟨length, kept⟩ := updateGroup_keeps (P := SizedGroup) changed (fun g g' sized eq => by
        split at eq
        · obtain rfl := Option.some.inj eq
          exact ⟨sized.name, Nat.le_trans List.length_erase_le sized.members⟩
        · exact absurd eq (by simp)) sized.groups
      exact ⟨sized.users, kept, sized.fewUsers, by rw [length]; exact sized.fewGroups⟩

theorem sized_userStep {db : UserDb} (call : UserCall) (sized : SizedDb db) :
    SizedDb (userStep db call) := by
  unfold userStep
  cases eq : call.result db with
  | none => exact sized
  | some db' => exact sized_result sized eq

theorem sized_along_run (files : EtcFiles) (calls : List UserCall) :
    SizedDb (run userStep (sysUserLoad files) calls) :=
  Reaches.invariant (fun _ call sized => sized_userStep call sized) (sized_sysUserLoad files)
    ⟨calls, rfl⟩

/-! ## The round trip -/

/-- The tables after a save and a load are those before, so the same authentications
succeed. -/
structure Restored (db : UserDb) : Prop where
  users : (sysUserLoad (sysUserSave db)).users = db.users
  groups : (sysUserLoad (sysUserSave db)).groups = db.groups
  auth : ∀ name password,
    sysAuthUser (sysUserLoad (sysUserSave db)) name password = sysAuthUser db name password

/-- No name and no home has a colon, no field a newline, the lines of all users and of all
groups are in the texts, and so are those of all users with a hash, whose names no other
line has. -/
structure SavedWhole (db : UserDb) : Prop where
  cleanUsers : ∀ u ∈ db.users, CleanUser u
  cleanGroups : ∀ g ∈ db.groups, CleanGroup g
  passwd : (db.users.flatMap passwdFields).flatten.length ≤ bufLimit + 1
  shadow : HashesKept bufLimit db.users
  group : (db.groups.flatMap groupFields).flatten.length ≤ bufLimit + 1

theorem notMem_field {c : UInt8} {cap : Nat} {s : CString} (notMem : c ∉ s) : c ∉ field cap s :=
  fun mem => notMem (List.mem_of_mem_take mem)

theorem notMem_behind {c x : UInt8} {a b : CString} (notMem : c ∉ a ++ x :: b) : c ∉ a ∧ c ∉ b := by
  rw [List.mem_append, List.mem_cons, not_or, not_or] at notMem
  exact ⟨notMem.1, notMem.2.2⟩

/-- What is read has no separators in it. -/
theorem cleanUser_of_parse {line : CString} {u : UserEntry} (notMem : newline ∉ line)
    (eq : parseUser line = some u) : CleanUser u := by
  unfold parseUser passwdLine at eq
  obtain ⟨_, fields, rfl⟩ := Option.map_eq_some_iff.1 eq
  simp only [Option.bind_eq_bind, Option.bind_eq_some_iff, Prod.exists, Option.some.injEq] at fields
  obtain ⟨name, r₁, cut₁, uid, r₂, cut₂, gid, r₃, cut₃, home, shell, cut₄, rfl⟩ := fields
  obtain ⟨rfl, noName⟩ := eq_of_cut cut₁
  obtain ⟨rfl, -⟩ := eq_of_cut cut₂
  obtain ⟨rfl, -⟩ := eq_of_cut cut₃
  obtain ⟨rfl, noHome⟩ := eq_of_cut cut₄
  obtain ⟨nlName, notMem⟩ := notMem_behind notMem
  obtain ⟨-, notMem⟩ := notMem_behind notMem
  obtain ⟨-, notMem⟩ := notMem_behind notMem
  obtain ⟨nlHome, nlShell⟩ := notMem_behind notMem
  exact ⟨⟨notMem_field noName, notMem_field nlName⟩, ⟨notMem_field noHome, notMem_field nlHome⟩,
    notMem_field nlShell, List.not_mem_nil⟩

theorem cleanGroup_of_parse {line : CString} {g : GroupEntry} (notMem : newline ∉ line)
    (eq : parseGroup line = some g) : CleanGroup g := by
  unfold parseGroup groupLine at eq
  obtain ⟨_, fields, rfl⟩ := Option.map_eq_some_iff.1 eq
  simp only [Option.bind_eq_bind, Option.bind_eq_some_iff, Prod.exists, Option.some.injEq] at fields
  obtain ⟨name, r₁, cut₁, gid, members, cut₂, rfl⟩ := fields
  obtain ⟨rfl, noName⟩ := eq_of_cut cut₁
  exact ⟨notMem_field noName, notMem_field (notMem_behind notMem).1⟩

theorem clean_sysUserLoad (files : EtcFiles) :
    (∀ u ∈ (sysUserLoad files).users, CleanUser u) ∧
      ∀ g ∈ (sysUserLoad files).groups, CleanGroup g := by
  constructor
  · refine setHashes_keeps (fun u r mem clean => ?_) fun u mem => ?_
    · obtain ⟨line, mem, cut⟩ := List.mem_filterMap.1 mem
      obtain ⟨rfl, -⟩ := eq_of_cut cut
      exact ⟨clean.name, clean.home, clean.shell,
        notMem_field (notMem_behind (notMem_of_mem_pieces mem)).2⟩
    · obtain ⟨line, notMem, eq⟩ := mem_loadPasswd mem
      exact cleanUser_of_parse notMem eq
  · intro g mem
    obtain ⟨line, notMem, eq⟩ := mem_loadGroup mem
    exact cleanGroup_of_parse notMem eq

/-- The users are loaded without their hashes first. -/
theorem users_withoutHash (files : EtcFiles) :
    (sysUserLoad files).users.map withoutHash = loadPasswd files.passwd := by
  show (setHashes _ _).map withoutHash = _
  rw [setHashes_withoutHash, map_withoutHash_eq_iff]
  intro u mem
  obtain ⟨line, -, eq⟩ := mem_loadPasswd mem
  obtain ⟨_, -, rfl⟩ := Option.map_eq_some_iff.1 eq
  rfl

theorem users_restored_iff {db : UserDb} (sized : SizedDb db)
    (clean : ∀ u ∈ db.users, CleanUser u) :
    (sysUserLoad (sysUserSave db)).users = db.users ↔
      (db.users.flatMap passwdFields).flatten.length ≤ bufLimit + 1 ∧
        HashesKept bufLimit db.users := by
  rw [← loadPasswd_eq_iff clean sized.users sized.fewUsers, ← loadShadow_eq_iff clean sized.users]
  constructor
  · intro eq
    have names := users_withoutHash (sysUserSave db)
    rw [eq] at names
    refine ⟨names.symm, ?_⟩
    rw [names]
    exact eq
  · rintro ⟨passwd, shadow⟩
    show loadShadow _ (loadPasswd (emitAll _)) = _
    rw [passwd]
    exact shadow

/-- **A database that has been reached is loaded as it was saved exactly when it is saved
whole.** -/
theorem user_db_restored_iff (files : EtcFiles) (calls : List UserCall) :
    Restored (run userStep (sysUserLoad files) calls) ↔
      SavedWhole (run userStep (sysUserLoad files) calls) := by
  have sized := sized_along_run files calls
  generalize run userStep (sysUserLoad files) calls = db at sized ⊢
  constructor
  · intro restored
    obtain ⟨cleanUsers, cleanGroups⟩ := clean_sysUserLoad (sysUserSave db)
    rw [restored.users] at cleanUsers
    rw [restored.groups] at cleanGroups
    obtain ⟨passwd, shadow⟩ := (users_restored_iff sized cleanUsers).1 restored.users
    exact ⟨cleanUsers, cleanGroups, passwd, shadow,
      (loadGroup_eq_iff cleanGroups sized.groups sized.fewGroups).1 restored.groups⟩
  · intro whole
    have users := (users_restored_iff sized whole.cleanUsers).2 ⟨whole.passwd, whole.shadow⟩
    refine ⟨users, ?_, fun name password => ?_⟩
    · exact (loadGroup_eq_iff whole.cleanGroups sized.groups sized.fewGroups).2 whole.group
    · unfold sysAuthUser
      rw [users]

/-- The user `a:b` with the number 1000 is loaded as the user `a` with the number 0. -/
theorem user_db_not_restored :
    ¬ ∀ (files : EtcFiles) (calls : List UserCall),
      Restored (run userStep (sysUserLoad files) calls) := by
  intro always
  have restored := always ⟨[], [], []⟩ [.userAdd [97, 58, 98] 1000 100 none none none]
  exact absurd restored.users (by decide +kernel)

end NTux.Sys
