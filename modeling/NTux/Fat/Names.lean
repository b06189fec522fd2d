import NTux.Fs.Vfs

/-!
# Names on a FAT volume

The name functions of `fs/fat.c`.  A name is stored twice: in eleven bytes of the
directory entry (`fat_make_sfn`, `fat_sfn_to_name`) and, thirteen characters at a time,
in the entries before it (`fat_lfn_write_entry`, `fat_lfn_push`).
-/

namespace NTux.Fat

open NTux.Fs

/-- `' '`. -/
def blank : UInt8 := 32

/-- `FAT_ATTR_DIR`. -/
def attrDir : UInt8 := 0x10

/-- `FAT_ATTR_VOLUME_ID`. -/
def attrVolumeId : UInt8 := 0x08

/-- `fat_dir_entry_t`, without its times. -/
structure FatDirEntry where
  name : List UInt8
  attr : UInt8
  cluster : UInt32
  size : UInt32
  deriving DecidableEq

/-- `fat_lfn_entry_t`: the characters of `name1`, `name2` and `name3` in order. -/
structure FatLfnEntry where
  order : UInt8
  checksum : UInt8
  chars : List UInt16
  deriving DecidableEq

/-! ## The short name -/

/-- An ASCII letter in lower case. -/
def lower (c : UInt8) : UInt8 := if 65 ≤ c ∧ c ≤ 90 then c + 32 else c

/-- An ASCII letter in upper case. -/
def upper (c : UInt8) : UInt8 := if 97 ≤ c ∧ c ≤ 122 then c - 32 else c

/-- `fat_sfn_to_name` of the eleven bytes. -/
def fatSfnToName (sfn : List UInt8) : CString :=
  let base := ((sfn.take 8).takeWhile (· ≠ blank)).map lower
  let ext := (sfn.drop 8).take 3
  if ext.any (· ≠ blank) then base ++ dot :: (ext.takeWhile (· ≠ blank)).map lower else base

/-- `fat_char_valid_sfn`. -/
def fatCharValidSfn (c : UInt8) : Bool :=
  (97 ≤ c && c ≤ 122) || (65 ≤ c && c ≤ 90) || (48 ≤ c && c ≤ 57) ||
    c == 95 || c == 45 || c == 36 || c == 126

/-- What `fat_make_sfn` stores for a character. -/
def sfnChar (c : UInt8) : UInt8 := upper (if fatCharValidSfn c then c else 95)

/-- The name up to the last dot and behind it; all of it without a dot. -/
def splitDot (name : CString) : CString × CString :=
  if dot ∈ name then
    let ext := (name.reverse.takeWhile (· ≠ dot)).reverse
    (name.take (name.length - ext.length - 1), ext)
  else (name, [])

/-- The bytes, filled up with blanks. -/
def padTo (n : Nat) (bytes : List UInt8) : List UInt8 :=
  bytes ++ List.replicate (n - bytes.length) blank

/-- `long_or_invalid`. -/
def longOrInvalid (base ext : CString) : Bool :=
  8 < base.length || 3 < ext.length || base.any (!fatCharValidSfn ·) || ext.any (!fatCharValidSfn ·)

/-- `fat_make_sfn`: there is no counter, the tail is always `~1`. -/
def fatMakeSfn (name : CString) : Option (List UInt8) :=
  let (base, ext) := splitDot name
  if base = [] then none
  else
    let front :=
      if longOrInvalid base ext then padTo 6 ((base.take 6).map sfnChar) ++ [126, 49]
      else padTo 8 (base.map sfnChar)
    some (front ++ padTo 3 ((ext.take 3).map sfnChar))

/-! ## Comparison -/

/-- `fat_name_equals_ci`. -/
def fatNameEqualsCi (a b : CString) : Bool := a.map lower == b.map lower

/-- `fat_name_equals`: a stored name against the name that is looked for. -/
def fatNameEquals (stored name : CString) : Bool :=
  fatNameEqualsCi stored name ||
    (fatMakeSfn name).any fun sfn => fatNameEqualsCi stored (fatSfnToName sfn)

/-! ## The long name -/

/-- `FAT_LFN_CHARS_PER_ENTRY`. -/
def lfnChars : Nat := 13

/-- `fat_lfn_checksum`. -/
def fatLfnChecksum (sfn : List UInt8) : UInt8 :=
  sfn.foldl (fun (sum c : UInt8) => (if sum &&& 1 ≠ 0 then (0x80 : UInt8) else 0) + (sum >>> 1) + c) 0

/-- `fat_lfn_entry_count_for_name`. -/
def fatLfnEntryCountForName (name : CString) : Nat := (name.length + (lfnChars - 1)) / lfnChars

/-- The character `idx` of a long name: the name, a zero, and `0xFFFF` behind it. -/
def lfnChar (name : CString) (idx : Nat) : UInt16 :=
  if idx < name.length then (name.getD idx 0).toUInt16
  else if idx = name.length then 0 else 0xFFFF

/-- `fat_lfn_write_entry`. -/
def fatLfnWriteEntry (order checksum : UInt8) (name : CString) (startIdx : Nat) : FatLfnEntry :=
  ⟨order, checksum, (List.range lfnChars).map fun i => lfnChar name (startIdx + i)⟩

/-- The order byte of the part `seg`: `FAT_LFN_LAST` marks the last one. -/
def lfnOrder (count seg : Nat) : UInt8 :=
  if seg + 1 = count then UInt8.ofNat (seg + 1) ||| 0x40 else UInt8.ofNat (seg + 1)

/-- The parts of a long name as `fat_create_entry` lays them out: the last one first. -/
def lfnEntries (sfn name : List UInt8) : List FatLfnEntry :=
  let count := fatLfnEntryCountForName name
  ((List.range count).map fun seg =>
    fatLfnWriteEntry (lfnOrder count seg) (fatLfnChecksum sfn) name (seg * lfnChars)).reverse

/-- `fat_lfn_accum_t`. -/
structure LfnAccum where
  name : Nat → UInt8
  expectedParts : Nat
  seenPartsMask : Nat
  active : Bool

/-- `fat_lfn_reset`. -/
def lfnReset : LfnAccum := ⟨fun _ => 0, 0, 0, false⟩

/-- `fat_lfn_put_char`. -/
def fatLfnPutChar (name : Nat → UInt8) (pos : Nat) (ch : UInt16) : Nat → UInt8 :=
  if vfsMaxName - 1 ≤ pos ∨ ch = 0 ∨ ch = 0xFFFF then name
  else Function.update name pos (if 32 ≤ ch ∧ ch ≤ 126 then ch.toUInt8 else 63)

/-- The characters of one part, stored from `base` on. -/
def putPart (name : Nat → UInt8) (base : Nat) (chars : List UInt16) : Nat → UInt8 :=
  (List.range lfnChars).foldl (fun name i => fatLfnPutChar name (base + i) (chars.getD i 0)) name

/-- `fat_lfn_push`. -/
def fatLfnPush (a : LfnAccum) (e : FatLfnEntry) : LfnAccum :=
  let idx := (e.order &&& 0x1F).toNat
  if idx = 0 ∨ 20 < idx then lfnReset
  else
    let opened :=
      if e.order &&& 0x40 ≠ 0 then some { lfnReset with active := true, expectedParts := idx }
      else if !a.active || a.expectedParts = 0 || a.expectedParts < idx then none
      else some a
    match opened with
    | none => lfnReset
    | some a =>
        { a with
          name := putPart a.name ((idx - 1) * lfnChars) e.chars
          seenPartsMask := a.seenPartsMask ||| 2 ^ (idx - 1) }

/-- `fat_lfn_complete`. -/
def fatLfnComplete (a : LfnAccum) : Bool :=
  a.active && a.expectedParts ≠ 0 && a.expectedParts ≤ 20 &&
    a.seenPartsMask = 2 ^ a.expectedParts - 1 && a.name 0 ≠ 0

/-- The accumulated name as a C string. -/
def LfnAccum.text (a : LfnAccum) : CString :=
  ((List.range (vfsMaxName - 1)).map a.name).takeWhile (· ≠ 0)

end NTux.Fat
