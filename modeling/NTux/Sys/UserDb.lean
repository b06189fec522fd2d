import NTux.Lib.Fields
import Mathlib.Algebra.Group.Nat.Defs

/-!
# The user database

The tables of users and groups of `sys/user.c`, the operations on them, and the texts of
`/etc/passwd`, `/etc/shadow` and `/etc/group` that `sys_user_save` writes and
`sys_user_load` reads.  A string is the list of its bytes up to the zero that ends it.
-/

namespace NTux.Sys

open NTux.Lib.Fields

/-- The bytes of a string up to the zero that ends it. -/
abbrev CString := List UInt8

/-- `USER_MAX_NAME`. -/
def userMaxName : Nat := 32

/-- `USER_MAX_PASS`. -/
def userMaxPass : Nat := 128

/-- `USER_MAX_GROUPS`. -/
def userMaxGroups : Nat := 32

/-- `USER_DB_MAX`. -/
def userDbMax : Nat := 64

def newline : UInt8 := 10
def comma : UInt8 := 44
def colon : UInt8 := 58

/-- What `strncpy` to a field of `cap` bytes, less the last, leaves as the string there. -/
def field (cap : Nat) (s : CString) : CString := s.take (cap - 1)

/-- The digits of a number that `utoa` leaves in `tmp`, of which `15 - k` are there. -/
def utoaDigits : Nat → Nat → CString
  | 0, _ => []
  | k + 1, val => if val = 0 then [] else UInt8.ofNat (48 + val % 10) :: utoaDigits k (val / 10)

/-- `utoa`. -/
def utoa (val : UInt32) : CString :=
  if val = 0 then [48] else (utoaDigits 15 val.toNat).reverse

/-- `strtol` in decimal: what is not a digit is passed over. -/
def strtol (s : CString) : Nat :=
  s.foldl (fun val c => if 48 ≤ c ∧ c ≤ 57 then (val * 10 + (c.toNat - 48)) % 2 ^ 64 else val) 0

/-- A number in a field of the tables. -/
def number (s : CString) : UInt32 := UInt32.ofNat (strtol s)

/-! ## The tables -/

/-- `user_entry_t`. -/
structure UserEntry where
  name : CString
  uid : UInt32
  gid : UInt32
  home : CString
  shell : CString
  passwdHash : CString
  deriving DecidableEq

/-- `group_entry_t`. -/
structure GroupEntry where
  name : CString
  gid : UInt32
  members : List UInt32
  deriving DecidableEq

/-- `g_users` and `g_groups` up to their counts. -/
structure UserDb where
  users : List UserEntry
  groups : List GroupEntry
  deriving DecidableEq

/-! ## Saving -/

/-- The end of the part of the buffers that is written. -/
def bufLimit : Nat := 4090

/-- `while (*p && pos < 4090) buf[pos++] = *p++`. -/
def emit (buf s : CString) : CString := buf ++ s.take (bufLimit - buf.length)

/-- The strings `sys_user_save` writes to `/etc/passwd`. -/
def passwdFields (u : UserEntry) : List CString :=
  [u.name, [colon], utoa u.uid, [colon], utoa u.gid, [colon], u.home, [colon], u.shell, [newline]]

/-- The strings `sys_user_save` writes to `/etc/shadow`. -/
def shadowFields (u : UserEntry) : List CString := [u.name, [colon], u.passwdHash, [newline]]

/-- The strings `sys_user_save` writes to `/etc/group`. -/
def groupFields (g : GroupEntry) : List CString :=
  [g.name, [colon], utoa g.gid, [colon]] ++ (g.members.map utoa).intersperse [comma] ++ [[newline]]

/-- The buffer after the strings have been written. -/
def emitAll (fields : List CString) : CString := fields.foldl emit []

/-- The files of the database; a file that is not there reads as an empty one. -/
structure EtcFiles where
  passwd : CString
  shadow : CString
  group : CString

/-- `sys_user_save`. -/
def sysUserSave (db : UserDb) : EtcFiles where
  passwd := emitAll (db.users.flatMap passwdFields)
  shadow := emitAll (db.users.flatMap shadowFields)
  group := emitAll (db.groups.flatMap groupFields)

/-! ## Loading -/

/-- The five fields of a line of `/etc/passwd`. -/
def passwdLine (line : CString) : Option (CString × CString × CString × CString × CString) := do
  let (name, rest) ← cut colon line
  let (uid, rest) ← cut colon rest
  let (gid, rest) ← cut colon rest
  let (home, shell) ← cut colon rest
  some (name, uid, gid, home, shell)

/-- The user a line of `/etc/passwd` stands for. -/
def parseUser (line : CString) : Option UserEntry :=
  (passwdLine line).map fun (name, uid, gid, home, shell) =>
    { name := field userMaxName name
      uid := number uid
      gid := number gid
      home := field userMaxName home
      shell := field userMaxName shell
      passwdHash := [] }

/-- `load_passwd`: lines that have too few fields are passed over. -/
def loadPasswd (text : CString) : List UserEntry :=
  ((pieces newline text).filterMap parseUser).take userDbMax

/-- The first user of the name gets the hash. -/
def setHash (name hash : CString) : List UserEntry → List UserEntry
  | [] => []
  | u :: us =>
      if u.name = name then { u with passwdHash := field userMaxPass hash } :: us
      else u :: setHash name hash us

/-- `load_shadow`. -/
def loadShadow (text : CString) (users : List UserEntry) : List UserEntry :=
  ((pieces newline text).filterMap (cut colon)).foldl (fun us r => setHash r.1 r.2 us) users

/-- The three fields of a line of `/etc/group`. -/
def groupLine (line : CString) : Option (CString × CString × CString) := do
  let (name, rest) ← cut colon line
  let (gid, members) ← cut colon rest
  some (name, gid, members)

/-- The group a line of `/etc/group` stands for. -/
def parseGroup (line : CString) : Option GroupEntry :=
  (groupLine line).map fun (name, gid, members) =>
    { name := field userMaxName name
      gid := number gid
      members := ((pieces comma members).map number).take userMaxGroups }

/-- `load_group`. -/
def loadGroup (text : CString) : List GroupEntry :=
  ((pieces newline text).filterMap parseGroup).take userDbMax

/-- `sys_user_load`. -/
def sysUserLoad (files : EtcFiles) : UserDb where
  users := loadShadow files.shadow (loadPasswd files.passwd)
  groups := loadGroup files.group

/-! ## The operations

Each ends with `sys_user_save` where it has changed a table. -/

/-- The users after `sys_user_add`, where it does not fail. -/
def sysUserAdd (db : UserDb) (name : CString) (uid gid : UInt32)
    (home shell hash : Option CString) : Option UserDb :=
  if name = [] ∨ userDbMax ≤ db.users.length then none
  else if db.users.any (fun u => u.name = name) then none
  else some { db with
    users := db.users ++ [
      { name := field userMaxName name
        uid := uid
        gid := gid
        home := field userMaxName (home.getD [47])
        shell := field userMaxName (shell.getD [47, 98, 105, 110, 47, 115, 104])
        passwdHash := field userMaxPass (hash.getD []) }] }

/-- `sys_user_del`. -/
def sysUserDel (db : UserDb) (name : CString) : Option UserDb :=
  if db.users.any (fun u => u.name = name) then
    some { db with users := db.users.eraseP fun u => u.name = name }
  else none

/-- `sys_user_set_hash`. -/
def sysUserSetHash (db : UserDb) (name hash : CString) : Option UserDb :=
  if db.users.any (fun u => u.name = name) then
    some { db with users := setHash name hash db.users }
  else none

/-- `sys_group_add`. -/
def sysGroupAdd (db : UserDb) (name : CString) (gid : UInt32) : Option UserDb :=
  if name = [] ∨ userDbMax ≤ db.groups.length then none
  else if db.groups.any (fun g => g.name = name) then none
  else some { db with
    groups := db.groups ++ [{ name := field userMaxName name, gid := gid, members := [] }] }

/-- `sys_group_del`. -/
def sysGroupDel (db : UserDb) (name : CString) : Option UserDb :=
  if db.groups.any (fun g => g.name = name) then
    some { db with groups := db.groups.eraseP fun g => g.name = name }
  else none

/-- The first group of the name is changed by `f`, or fails. -/
def updateGroup (name : CString) (f : GroupEntry → Option GroupEntry) :
    List GroupEntry → Option (List GroupEntry)
  | [] => none
  | g :: gs =>
      if g.name = name then (f g).map (· :: gs)
      else (updateGroup name f gs).map (g :: ·)

/-- `sys_group_add_member`; a member is not added twice. -/
def sysGroupAddMember (db : UserDb) (group : CString) (uid : UInt32) : Option UserDb :=
  (updateGroup group (fun g =>
    if userMaxGroups ≤ g.members.length then none
    else if uid ∈ g.members then some g
    else some { g with members := g.members ++ [uid] }) db.groups).map fun gs =>
      { db with groups := gs }

/-- `sys_group_del_member`. -/
def sysGroupDelMember (db : UserDb) (group : CString) (uid : UInt32) : Option UserDb :=
  (updateGroup group (fun g =>
    if uid ∈ g.members then some { g with members := g.members.erase uid } else none)
    db.groups).map fun gs => { db with groups := gs }

/-! ## Authentication -/

/-- `fnv1a_hash`. -/
def fnv1aHash (data : CString) : UInt64 :=
  data.foldl (fun h c => (h ^^^ c.toUInt64) * 1099511628211) 1469598103934665603

/-- The digit of `bytes_to_hex`. -/
def hexDigit (n : UInt64) : UInt8 := if n < 10 then 48 + n.toUInt8 else 87 + n.toUInt8

/-- `compute_hash`: the sixteen hexadecimal digits of the hash, the highest first. -/
def computeHash (name password : CString) : CString :=
  let h := fnv1aHash (name ++ colon :: password)
  (List.range 16).map fun i => hexDigit (h >>> UInt64.ofNat (60 - 4 * i) &&& 15)

/-- `sys_auth_user`, true for 0. -/
def sysAuthUser (db : UserDb) (name password : CString) : Bool :=
  match db.users.find? fun u => u.name = name with
  | none => false
  | some u => u.passwdHash = computeHash name password

end NTux.Sys
