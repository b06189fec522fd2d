import NTux.Lib.KeyedLists
import NTux.Sys.UserDbRun

/-!
# The names in the user database

`sys_user_add` and `sys_group_add` compare the whole name with those in the table, and keep
the first 31 bytes of it; `load_passwd` and `load_group` compare nothing.
`names_unique_iff` says in which runs no name is in a table twice; `name_added_twice` is a
run in which one is.  Deletions change no other lookup in any run.
-/

namespace NTux.Sys

open NTux.Lib NTux.Lib.Fields NTux.Lib.KeyedLists

/-! ## Lookups -/

/-- `sys_user_get_by_name`. -/
def sysUserGetByName (db : UserDb) (name : CString) : Option UserEntry :=
  db.users.find? fun u => u.name = name

/-- `sys_user_get_by_uid`. -/
def sysUserGetByUid (db : UserDb) (uid : UInt32) : Option UserEntry :=
  db.users.find? fun u => u.uid = uid

/-- `sys_group_get_by_name`. -/
def sysGroupGetByName (db : UserDb) (name : CString) : Option GroupEntry :=
  db.groups.find? fun g => g.name = name

/-- `sys_group_get_by_gid`. -/
def sysGroupGetByGid (db : UserDb) (gid : UInt32) : Option GroupEntry :=
  db.groups.find? fun g => g.gid = gid

/-- The names of the users. -/
def UserDb.userNames (db : UserDb) : List CString := db.users.map UserEntry.name

/-- The names of the groups. -/
def UserDb.groupNames (db : UserDb) : List CString := db.groups.map GroupEntry.name

/-- `after` finds under every name but `name` and every number but `uid` what `db` finds. -/
structure OtherUsersFound (db after : UserDb) (name : CString) (uid : UInt32) : Prop where
  byName : ∀ other, other ≠ name → sysUserGetByName after other = sysUserGetByName db other
  byUid : ∀ other, other ≠ uid → sysUserGetByUid after other = sysUserGetByUid db other
  groups : after.groups = db.groups

/-- The same for groups. -/
structure OtherGroupsFound (db after : UserDb) (name : CString) (gid : UInt32) : Prop where
  byName : ∀ other, other ≠ name → sysGroupGetByName after other = sysGroupGetByName db other
  byGid : ∀ other, other ≠ gid → sysGroupGetByGid after other = sysGroupGetByGid db other
  users : after.users = db.users

/-- The tables have each name once and are not overfull; deleting an entry deletes the one
that is found under the name and no other; and who knows the password of a user of the table
is let in, and no one else. -/
structure WellFormedDb (db : UserDb) : Prop where
  userNames : db.userNames.Nodup
  groupNames : db.groupNames.Nodup
  fewUsers : db.users.length ≤ userDbMax
  fewGroups : db.groups.length ≤ userDbMax
  userDel : ∀ name after, sysUserDel db name = some after →
    ∃ u, sysUserGetByName db name = some u ∧ OtherUsersFound db after name u.uid ∧
      sysUserGetByName after name = none
  groupDel : ∀ name after, sysGroupDel db name = some after →
    ∃ g, sysGroupGetByName db name = some g ∧ OtherGroupsFound db after name g.gid ∧
      sysGroupGetByName after name = none
  auth : ∀ name password, sysAuthUser db name password = true ↔
    ∃ u ∈ db.users, u.name = name ∧ u.passwdHash = computeHash name password

/-! ## Deleting -/

theorem sysUserDel_cases {db after : UserDb} {name : CString}
    (eq : sysUserDel db name = some after) :
    ∃ u, sysUserGetByName db name = some u ∧
      after = { db with users := db.users.eraseP fun u => u.name = name } := by
  unfold sysUserDel at eq
  split at eq
  next present =>
    obtain ⟨u, found⟩ := Option.isSome_iff_exists.1 (List.find?_isSome.2 (List.any_eq_true.1 present))
    exact ⟨u, found, (Option.some.inj eq).symm⟩
  · cases eq

theorem sysGroupDel_cases {db after : UserDb} {name : CString}
    (eq : sysGroupDel db name = some after) :
    ∃ g, sysGroupGetByName db name = some g ∧
      after = { db with groups := db.groups.eraseP fun g => g.name = name } := by
  unfold sysGroupDel at eq
  split at eq
  next present =>
    obtain ⟨g, found⟩ := Option.isSome_iff_exists.1 (List.find?_isSome.2 (List.any_eq_true.1 present))
    exact ⟨g, found, (Option.some.inj eq).symm⟩
  · cases eq

/-- **Deleting a user changes no other lookup**, whatever is in the tables. -/
theorem sysUserDel_others {db after : UserDb} {name : CString}
    (eq : sysUserDel db name = some after) :
    ∃ u, sysUserGetByName db name = some u ∧ OtherUsersFound db after name u.uid := by
  obtain ⟨u, found, rfl⟩ := sysUserDel_cases eq
  have named : u.name = name := by simpa using List.find?_some found
  refine ⟨u, found, fun other ne => ?_, fun other ne => ?_, rfl⟩
  · exact find?_eraseP found (decide_eq_false (named ▸ ne.symm))
  · exact find?_eraseP found (decide_eq_false ne.symm)

/-- **Deleting a group changes no other lookup**, whatever is in the tables. -/
theorem sysGroupDel_others {db after : UserDb} {name : CString}
    (eq : sysGroupDel db name = some after) :
    ∃ g, sysGroupGetByName db name = some g ∧ OtherGroupsFound db after name g.gid := by
  obtain ⟨g, found, rfl⟩ := sysGroupDel_cases eq
  have named : g.name = name := by simpa using List.find?_some found
  refine ⟨g, found, fun other ne => ?_, fun other ne => ?_, rfl⟩
  · exact find?_eraseP found (decide_eq_false (named ▸ ne.symm))
  · exact find?_eraseP found (decide_eq_false ne.symm)

/-- Where the names are distinct, the tables are well formed. -/
theorem wellFormedDb_of_nodup {db : UserDb} (sized : SizedDb db) (users : db.userNames.Nodup)
    (groups : db.groupNames.Nodup) : WellFormedDb db where
  userNames := users
  groupNames := groups
  fewUsers := sized.fewUsers
  fewGroups := sized.fewGroups
  userDel name after eq := by
    obtain ⟨u, found, others⟩ := sysUserDel_others eq
    obtain ⟨u', found', rfl⟩ := sysUserDel_cases eq
    exact ⟨u, found, others, find?_key_eraseP users name⟩
  groupDel name after eq := by
    obtain ⟨g, found, others⟩ := sysGroupDel_others eq
    obtain ⟨g', found', rfl⟩ := sysGroupDel_cases eq
    exact ⟨g, found, others, find?_key_eraseP groups name⟩
  auth name password := by
    unfold sysAuthUser
    cases found : db.users.find? fun u => u.name = name with
    | none =>
        simp only [Bool.false_eq_true, false_iff]
        rintro ⟨u, mem, named, -⟩
        exact absurd named (by simpa using List.find?_eq_none.1 found u mem)
    | some u =>
        obtain ⟨mem, named⟩ := (find?_key_iff users).1 found
        rw [decide_eq_true_iff]
        constructor
        · exact fun same => ⟨u, mem, named, same⟩
        · rintro ⟨v, mem', named', same⟩
          have both := (find?_key_iff users).2 ⟨mem', named'⟩
          rw [Option.some.inj (found.symm.trans both)]
          exact same

/-! ## The names after a call -/

theorem setHash_names (name hash : CString) (users : List UserEntry) :
    (setHash name hash users).map UserEntry.name = users.map UserEntry.name := by
  induction users with
  | nil => rfl
  | cons u us ih =>
      unfold setHash
      split
      · rfl
      · rw [List.map_cons, ih, List.map_cons]

theorem loadShadow_names (text : CString) (users : List UserEntry) :
    (loadShadow text users).map UserEntry.name = users.map UserEntry.name := by
  unfold loadShadow
  generalize (pieces newline text).filterMap (cut colon) = es
  induction es generalizing users with
  | nil => rfl
  | cons e es ih => rw [List.foldl_cons, ih, setHash_names]

theorem updateGroup_names {name : CString} {f : GroupEntry → Option GroupEntry}
    (keep : ∀ g g', f g = some g' → g'.name = g.name) {gs gs' : List GroupEntry}
    (eq : updateGroup name f gs = some gs') :
    gs'.map GroupEntry.name = gs.map GroupEntry.name := by
  induction gs generalizing gs' with
  | nil => cases eq
  | cons g gs ih =>
      unfold updateGroup at eq
      split at eq
      · obtain ⟨g', changed, rfl⟩ := Option.map_eq_some_iff.1 eq
        rw [List.map_cons, keep g g' changed, List.map_cons]
      · obtain ⟨rest, changed, rfl⟩ := Option.map_eq_some_iff.1 eq
        rw [List.map_cons, ih changed, List.map_cons]

theorem any_name_iff {α : Type} {key : α → CString} {l : List α} {name : CString} :
    l.any (fun x => key x = name) = true ↔ name ∈ l.map key := by
  simp [List.mem_map]

/-- The first 31 bytes of the name of an entry are not a name in the table, where the entry
is not refused. -/
def AddsNewName (db : UserDb) : UserCall → Prop
  | .userAdd name .. =>
      name ≠ [] → db.users.length < userDbMax → name ∉ db.userNames →
        field userMaxName name ∉ db.userNames
  | .groupAdd name _ =>
      name ≠ [] → db.groups.length < userDbMax → name ∉ db.groupNames →
        field userMaxName name ∉ db.groupNames
  | _ => True

section

local instance lawfulNames : LawfulBEq CString := inferInstance

instance (db : UserDb) (call : UserCall) : Decidable (AddsNewName db call) := by
  cases call <;> unfold AddsNewName <;> infer_instance

end

/-- An addition changes nothing where the name is empty or taken or the table is full. -/
theorem added_getD {db db' : UserDb} {name : CString} (names : List CString) {n : Nat}
    {taken : Bool} (same : taken = true ↔ name ∈ names) :
    (if name = [] ∨ userDbMax ≤ n then none else if taken then none else some db').getD db =
      if name ≠ [] ∧ n < userDbMax ∧ name ∉ names then db' else db := by
  split
  next refused =>
    refine (if_neg fun new => ?_).symm
    rcases refused with empty | full
    · exact new.1 empty
    · exact absurd new.2.1 (Nat.not_lt.2 full)
  next room =>
    rw [not_or, Nat.not_le] at room
    split
    next old => exact (if_neg fun new => new.2.2 (same.1 old)).symm
    next new =>
      have absent : name ∉ names := fun mem => new (same.2 mem)
      exact (if_pos ⟨room.1, room.2, absent⟩).symm

/-- A user that is not refused is put at the end under the first 31 bytes of its name. -/
theorem sysUserAdd_names (db : UserDb) (name : CString) (uid gid : UInt32)
    (home shell hash : Option CString) :
    ((sysUserAdd db name uid gid home shell hash).getD db).groupNames = db.groupNames ∧
      ((sysUserAdd db name uid gid home shell hash).getD db).userNames =
        if name ≠ [] ∧ db.users.length < userDbMax ∧ name ∉ db.userNames then
          db.userNames ++ [field userMaxName name]
        else db.userNames := by
  unfold sysUserAdd
  rw [added_getD db.userNames any_name_iff]
  split
  · exact ⟨rfl, List.map_append ..⟩
  · exact ⟨rfl, rfl⟩

/-- A group that is not refused is put at the end under the first 31 bytes of its name. -/
theorem sysGroupAdd_names (db : UserDb) (name : CString) (gid : UInt32) :
    ((sysGroupAdd db name gid).getD db).userNames = db.userNames ∧
      ((sysGroupAdd db name gid).getD db).groupNames =
        if name ≠ [] ∧ db.groups.length < userDbMax ∧ name ∉ db.groupNames then
          db.groupNames ++ [field userMaxName name]
        else db.groupNames := by
  unfold sysGroupAdd
  rw [added_getD db.groupNames any_name_iff]
  split
  · exact ⟨rfl, List.map_append ..⟩
  · exact ⟨rfl, rfl⟩

/-- Adding at the end keeps the names distinct exactly when the name that is added is new. -/
theorem nodup_ite_concat_iff {P : Prop} [Decidable P] {names : List CString} {name : CString}
    (distinct : names.Nodup) :
    (if P then names ++ [name] else names).Nodup ↔ (P → name ∉ names) := by
  split
  next holds =>
    have concat : ((names ++ [name]).map id).Nodup ↔ (names.map id).Nodup ∧ name ∉ names.map id :=
      nodup_concat_iff
    rw [List.map_id, List.map_id] at concat
    rw [concat]
    exact ⟨fun both _ => both.2, fun new => ⟨distinct, new holds⟩⟩
  next fails => exact ⟨fun _ holds => absurd holds fails, fun _ => distinct⟩

/-- A change to the members of a group leaves the names as they are. -/
theorem nodup_updateGroup {db : UserDb} (users : db.userNames.Nodup) (groups : db.groupNames.Nodup)
    {group : CString} {f : GroupEntry → Option GroupEntry}
    (keep : ∀ g g', f g = some g' → g'.name = g.name) :
    (((updateGroup group f db.groups).map fun gs =>
        { db with groups := gs }).getD db).userNames.Nodup ∧
      (((updateGroup group f db.groups).map fun gs =>
        { db with groups := gs }).getD db).groupNames.Nodup := by
  cases changed : updateGroup group f db.groups with
  | none => exact ⟨users, groups⟩
  | some gs =>
      refine ⟨users, ?_⟩
      show (gs.map GroupEntry.name).Nodup
      rw [updateGroup_names keep changed]
      exact groups

/-- The names are distinct after a call exactly when the call adds no name that is taken. -/
theorem nodup_userStep_iff {db : UserDb} (users : db.userNames.Nodup)
    (groups : db.groupNames.Nodup) (call : UserCall) :
    (userStep db call).userNames.Nodup ∧ (userStep db call).groupNames.Nodup ↔
      AddsNewName db call := by
  cases call with
  | userAdd name uid gid home shell hash =>
      obtain ⟨sameGroups, added⟩ := sysUserAdd_names db name uid gid home shell hash
      simp only [userStep, UserCall.result, AddsNewName]
      rw [sameGroups, added, nodup_ite_concat_iff users]
      exact ⟨fun both named room absent => both.1 ⟨named, room, absent⟩,
        fun new => ⟨fun free => new free.1 free.2.1 free.2.2, groups⟩⟩
  | groupAdd name gid =>
      obtain ⟨sameUsers, added⟩ := sysGroupAdd_names db name gid
      simp only [userStep, UserCall.result, AddsNewName]
      rw [sameUsers, added, nodup_ite_concat_iff groups]
      exact ⟨fun both named room absent => both.2 ⟨named, room, absent⟩,
        fun new => ⟨users, fun free => new free.1 free.2.1 free.2.2⟩⟩
  | userDel name =>
      refine iff_of_true ?_ trivial
      simp only [userStep, UserCall.result, sysUserDel]
      split
      · exact ⟨nodup_eraseP users _, groups⟩
      · exact ⟨users, groups⟩
  | groupDel name =>
      refine iff_of_true ?_ trivial
      simp only [userStep, UserCall.result, sysGroupDel]
      split
      · exact ⟨users, nodup_eraseP groups _⟩
      · exact ⟨users, groups⟩
  | userSetHash name hash =>
      refine iff_of_true ?_ trivial
      simp only [userStep, UserCall.result, sysUserSetHash]
      split
      · refine ⟨?_, groups⟩
        show ((setHash name hash db.users).map UserEntry.name).Nodup
        rw [setHash_names]
        exact users
      · exact ⟨users, groups⟩
  | groupAddMember group uid =>
      refine iff_of_true (nodup_updateGroup users groups fun g g' eq => ?_) trivial
      split at eq
      · cases eq
      · split at eq <;> cases eq <;> rfl
  | groupDelMember group uid =>
      refine iff_of_true (nodup_updateGroup users groups fun g g' eq => ?_) trivial
      split at eq
      · cases eq
        rfl
      · cases eq

/-! ## Runs -/

/-- A well-formed database is well formed after a call exactly when the call adds no name
that is taken. -/
theorem wellFormedDb_userStep_iff {db : UserDb} (sized : SizedDb db) (wf : WellFormedDb db)
    (call : UserCall) : WellFormedDb (userStep db call) ↔ AddsNewName db call := by
  rw [← nodup_userStep_iff wf.userNames wf.groupNames call]
  exact ⟨fun after => ⟨after.userNames, after.groupNames⟩,
    fun distinct => wellFormedDb_of_nodup (sized_userStep call sized) distinct.1 distinct.2⟩

theorem wellFormedDb_along_iff {db : UserDb} (sized : SizedDb db) (calls : List UserCall) :
    (∀ done, done <+: calls → WellFormedDb (run userStep db done)) ↔
      WellFormedDb db ∧ AllSteps userStep AddsNewName db calls := by
  induction calls generalizing db with
  | nil => simp
  | cons call calls ih =>
      have rest := ih (sized_userStep call sized)
      constructor
      · intro all
        have wf : WellFormedDb db := all [] List.nil_prefix
        obtain ⟨after, later⟩ := rest.1 fun done before =>
          all (call :: done) (List.cons_prefix_cons.2 ⟨rfl, before⟩)
        exact ⟨wf, (wellFormedDb_userStep_iff sized wf call).1 after, later⟩
      · rintro ⟨wf, new, later⟩ done before
        have after := (wellFormedDb_userStep_iff sized wf call).2 new
        cases done with
        | nil => exact wf
        | cons c done =>
            obtain ⟨rfl, rest'⟩ := List.cons_prefix_cons.1 before
            exact rest.2 ⟨after, later⟩ done rest'

/-- No two of the lines that are loaded are for names with the same first 31 bytes. -/
structure NamesOnce (files : EtcFiles) : Prop where
  users : ((loadPasswd files.passwd).map UserEntry.name).Nodup
  groups : ((loadGroup files.group).map GroupEntry.name).Nodup

/-- **The database is well formed in every state of a run exactly when no name is loaded
twice and no add that is accepted has a name that is taken once it is cut to 31 bytes.** -/
theorem names_unique_iff (files : EtcFiles) (calls : List UserCall) :
    (∀ done, done <+: calls → WellFormedDb (run userStep (sysUserLoad files) done)) ↔
      NamesOnce files ∧ AllSteps userStep AddsNewName (sysUserLoad files) calls := by
  have sized := sized_sysUserLoad files
  have names : (sysUserLoad files).userNames = (loadPasswd files.passwd).map UserEntry.name :=
    loadShadow_names files.shadow _
  rw [wellFormedDb_along_iff sized]
  refine and_congr_left fun _ => ⟨fun wf => ?_, fun once => ?_⟩
  · exact ⟨names ▸ wf.userNames, wf.groupNames⟩
  · exact wellFormedDb_of_nodup sized (names.symm ▸ once.users) once.groups

/-- The user whose name is 32 letters is added a second time: the whole name is not in the
table, the first 31 letters are. -/
theorem name_added_twice :
    ¬ ∀ (files : EtcFiles) (calls : List UserCall) done, done <+: calls →
      WellFormedDb (run userStep (sysUserLoad files) done) := by
  intro all
  have wf := all ⟨[], [], []⟩
    [.userAdd (List.replicate 32 97) 1000 100 none none none,
      .userAdd (List.replicate 32 97) 1001 100 none none none] _ (List.prefix_refl _)
  exact absurd wf.userNames (by decide +kernel)

end NTux.Sys
