import NTux.Sys.UserDbRun

/-!
# The account tools

`useradd`, `userdel` and `passwd` of `userspace/src/tools`: they rewrite the files under `/etc`
and nothing else.  A tool that does not come to its report changes nothing.

Whether a file can be read or written by the caller is given; a write that fails leaves the file
as it was, and the tools do not ask.
-/

namespace NTux.Sys

open NTux.Lib.Fields

/-- Which files can be read and written. -/
structure EtcAccess where
  readPasswd : Bool
  readShadow : Bool
  readGroup : Bool
  writePasswd : Bool
  writeShadow : Bool
  writeGroup : Bool

/-- `read_file` with a buffer of `cap` bytes. -/
def readFile (readable : Bool) (cap : Nat) (text : CString) : Option CString :=
  if readable ∧ text.length ≤ cap - 1 then some text else none

/-- `write_file`. -/
def writeFile (writable : Bool) (old text : CString) : CString := if writable then text else old

/-- The lines a loop `while (*p)` meets; the last one may have no newline. -/
def scanLines (line : CString) : CString → List (CString × Bool)
  | [] => if line = [] then [] else [(line, true)]
  | c :: rest =>
      if c = newline then (line, false) :: scanLines [] rest else scanLines (line ++ [c]) rest

/-- The part of the line before the first colon is `name`. -/
def namedBy (name line : CString) : Bool := (cut colon line).any fun r => r.1 = name

/-- `fnv1a64`. -/
def fnv1a64 (a b : CString) : UInt64 := fnv1aHash (a ++ colon :: b)

/-- `hash_hex`: the lowest digit comes last. -/
def hashHex (h : UInt64) : CString :=
  (List.range 16).map fun i => hexDigit (h >>> UInt64.ofNat (4 * (15 - i)) &&& 15)

/-- The digits `atoi` reads. -/
def atoiDigits (v : Nat) : CString → Nat
  | [] => v
  | c :: rest => if 48 ≤ c ∧ c ≤ 57 then atoiDigits (v * 10 + (c.toNat - 48)) rest else v

/-- `(uint32_t)atoi`. -/
def atoi (s : CString) : UInt32 :=
  match s.dropWhile fun c => c = 32 ∨ c = 9 ∨ c = 10 ∨ c = 13 with
  | 45 :: rest => 0 - UInt32.ofNat (atoiDigits 0 rest)
  | 43 :: rest => UInt32.ofNat (atoiDigits 0 rest)
  | rest => UInt32.ofNat (atoiDigits 0 rest)

/-! ## `passwd` -/

/-- `FILE_BUF` of `passwd`. -/
def passwdFileBuf : Nat := 4096

/-- A line of `replace_shadow_line`: whether the user has been found, and what is in `tmp`. -/
def replaceLine (name hash : CString) (r : Bool × CString) (l : CString × Bool) : Bool × CString :=
  let ending := if l.2 then [] else [newline]
  if l.1 ≠ [] ∧ namedBy name l.1 then (true, r.2 ++ (name ++ [colon] ++ hash ++ [newline]))
  else if l.1 ≠ [] ∨ l.2 = false then
    if r.2.length + l.1.length + 1 < passwdFileBuf then (r.1, r.2 ++ l.1 ++ ending) else r
  else r

/-- `replace_shadow_line`; nothing, where it leaves its buffer. -/
def replaceShadowLine (text name hash : CString) : Option (Bool × CString) :=
  let r := (scanLines [] text).foldl (replaceLine name hash) (false, [])
  if r.2.length < passwdFileBuf then some r else none

/-- What `passwd` is given: the caller, the argument, and what is typed. -/
structure PasswdInput where
  uid : UInt32
  username : Option CString
  old : CString
  new1 : CString
  new2 : CString

/-- Who the password is for. -/
def passwdUser (input : PasswdInput) (access : EtcAccess) (files : EtcFiles) : Option CString :=
  match input.username with
  | some name => some name
  | none => do
      let text ← readFile access.readPasswd passwdFileBuf files.passwd
      let entries := (scanLines [] text).filterMap fun l => cut colon l.1
      (entries.find? fun e => atoi e.2 = input.uid).map Prod.fst

/-- `passwd`: the name that has been given a password, and the files. -/
def passwd (db : UserDb) (files : EtcFiles) (input : PasswdInput) (access : EtcAccess) :
    Option (CString × EtcFiles) := do
  let name ← passwdUser input access files
  if input.uid ≠ 0 ∧ sysAuthUser db name [] ∧ sysAuthUser db name input.old = false then none
  else if input.new1 ≠ input.new2 then none
  else
    let text ← readFile access.readShadow passwdFileBuf files.shadow
    let (found, text) ← replaceShadowLine text name (hashHex (fnv1a64 name input.new1))
    if found then
      some (name, { files with shadow := writeFile access.writeShadow files.shadow text })
    else none

/-! ## `userdel` -/

/-- `FILE_BUF` of `useradd` and `userdel`. -/
def userFileBuf : Nat := 8192

/-- A line of `remove_line`. -/
def removeOneLine (name : CString) (r : Bool × CString) (l : CString × Bool) : Bool × CString :=
  if l.1 = [] then r
  else if namedBy name l.1 then (true, r.2)
  else (r.1, r.2 ++ l.1 ++ if l.2 then [] else [newline])

/-- `remove_line`. -/
def removeLine (text name : CString) : Bool × CString :=
  (scanLines [] text).foldl (removeOneLine name) (false, [])

/-- `userdel`: the name that has been deleted, and the files. -/
def userdel (files : EtcFiles) (uid : UInt32) (username : Option CString) (access : EtcAccess) :
    Option (CString × EtcFiles) := do
  if uid ≠ 0 then none
  else
    let name ← username
    let text ← readFile access.readPasswd userFileBuf files.passwd
    let shadow := (readFile access.readShadow userFileBuf files.shadow).getD []
    if (removeLine text name).1 then
      some (name, { files with
        passwd := writeFile access.writePasswd files.passwd (removeLine text name).2
        shadow := writeFile access.writeShadow files.shadow (removeLine shadow name).2 })
    else none

/-! ## `useradd` -/

/-- `LINE_BUF`. -/
def lineBuf : Nat := 512

/-- The options of `useradd`. -/
structure UseraddArgs where
  uid : UInt32
  gid : UInt32
  home : Option CString
  shell : CString
  username : Option CString

/-- What it starts with. -/
def useraddDefaults : UseraddArgs := ⟨1001, 1001, none, [47, 98, 105, 110, 47, 115, 104], none⟩

/-- The loop over the arguments; an option that is not known, or the last, ends the program. -/
def parseArgs : List CString → UseraddArgs → Option UseraddArgs
  | [], a => some a
  | [arg], a => if arg.head? = some 45 then none else some { a with username := some arg }
  | arg :: val :: rest, a =>
      if arg.head? = some 45 then
        match arg.getD 1 0 with
        | 117 => parseArgs rest { a with uid := atoi val }
        | 103 => parseArgs rest { a with gid := atoi val }
        | 100 => parseArgs rest { a with home := some val }
        | 115 => parseArgs rest { a with shell := val }
        | _ => none
      else parseArgs (val :: rest) { a with username := some arg }

/-- `exists_in`, which does not get past an empty line. -/
def existsIn (name : CString) : List (CString × Bool) → Option Bool
  | [] => some false
  | l :: rest =>
      if l.1 = [] then none else if namedBy name l.1 then some true else existsIn name rest

/-- A line is put at the end if there is room for it.  Nothing, where more than the line is
copied. -/
def appendLine (text line : CString) : Option CString :=
  if text.length + line.length + 1 < userFileBuf then
    if line.length < lineBuf then some (text ++ line) else none
  else some text

/-- The password of a new user, `"1234"`. -/
def initialPassword : CString := [49, 50, 51, 52]

/-- `useradd`: the name that has been added, and the files. -/
def useradd (files : EtcFiles) (uid : UInt32) (args : List CString) (access : EtcAccess) :
    Option (CString × EtcFiles) := do
  if uid ≠ 0 then none
  else
    let a ← parseArgs args useraddDefaults
    let name ← a.username
    let home := a.home.getD (([47, 104, 111, 109, 101, 47] ++ name).take 255)
    let passwd := (readFile access.readPasswd userFileBuf files.passwd).getD []
    let shadow := (readFile access.readShadow userFileBuf files.shadow).getD []
    let group := (readFile access.readGroup userFileBuf files.group).getD []
    if ← existsIn name (scanLines [] passwd) then none
    else
      let passwd ← appendLine passwd (name ++ [colon] ++ utoa a.uid ++ [colon] ++ utoa a.gid ++
        [colon] ++ home ++ [colon] ++ a.shell ++ [newline])
      let shadow ← appendLine shadow
        (name ++ [colon] ++ hashHex (fnv1a64 name initialPassword) ++ [newline])
      let known ← existsIn name (scanLines [] group)
      let group ← if known then some group
        else appendLine group (name ++ [colon] ++ utoa a.gid ++ [colon, newline])
      some (name, {
        passwd := writeFile access.writePasswd files.passwd passwd
        shadow := writeFile access.writeShadow files.shadow shadow
        group := writeFile access.writeGroup files.group group })

end NTux.Sys
