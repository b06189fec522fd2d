import NTux.Fs.RamfsAttr
import NTux.Fs.RamfsPool
import NTux.Lib.Runs
import NTux.Sys.Int80

/-!
# The file behind a descriptor

A descriptor opened for reading and writing should behave as a position in a file: a
read returns what the writes before it leave there, a write goes where the last one
ended, and the length is the one the writes produce (`FileCursor`).

`fd.c` keeps a copy of the file made at the opening instead.  `fd_write` replaces the
whole file, works at position zero only, and touches neither the copy nor its length.  A
run of calls follows the cursor exactly as long as every write starts at the start and
covers the file, every read covers bytes on which the copy and the file agree, and no
seek or stat meets a length that has changed (`descriptor_follows_iff`).

The backend below the path is any one that stores the bytes it is given and returns them
(`BackendLaw`).
-/

namespace NTux.Sys

open NTux.Lib
open NTux.Fs hiding CString

/-! ## The cursor -/

/-- A file and a position in it. -/
structure FileCursor where
  content : List UInt8
  pos : Nat

/-- The calls on a descriptor. -/
inductive FdCall
  | read (len : Nat)
  | write (data : List UInt8)
  | lseek (offset whence : Int)
  | stat

/-- What a call returns: a number, and the bytes of a read; `none` for `-1`. -/
abbrev FdResult := Option (Int × List UInt8)

/-- The bytes `data` written at `pos`. -/
def overwrite (content : List UInt8) (pos : Nat) (data : List UInt8) : List UInt8 :=
  content.take pos ++ data ++ content.drop (pos + data.length)

/-- Where a seek leads to in a file of the given length, before it is cut to the length. -/
def seekTarget (pos len : Nat) (offset whence : Int) : Option Int :=
  if whence = 0 then some offset
  else if whence = 1 then some (pos + offset)
  else if whence = 2 then some (len + offset)
  else none

/-- A seek in a file of the given length. -/
def seek (pos len : Nat) (offset whence : Int) : Option Nat :=
  (seekTarget pos len offset whence).bind fun nv => if nv < 0 then none else some (min nv.toNat len)

/-- A call on a cursor; `accepts` says whether the filesystem takes a new content. -/
def FileCursor.call (accepts : List UInt8 → Bool) (c : FileCursor) : FdCall → FdResult × FileCursor
  | .read len =>
      let out := (c.content.drop c.pos).take len
      (some (out.length, out), ⟨c.content, c.pos + out.length⟩)
  | .write data =>
      let new := overwrite c.content c.pos data
      if accepts new then (some (data.length, []), ⟨new, c.pos + data.length⟩) else (none, c)
  | .lseek offset whence =>
      match seek c.pos c.content.length offset whence with
      | some p => (some (p, []), ⟨c.content, p⟩)
      | none => (none, c)
  | .stat => (some (c.content.length, []), c)

/-! ## The descriptor -/

variable {σ : Type}

/-- `fd_stat`: the size, and whether it is a device. -/
def fdStat (t : Thread) (fd : Int) : Option (Nat × Bool) :=
  (t.entry fd).map fun e =>
    match e.kind with
    | .file _ fileLen => (fileLen, false)
    | .dev _ => (0, true)

/-- A call on the descriptor `fd`. -/
def fdCall (dev : Devices σ) (who : Identity) (fd : Int) (t : Thread) (v : Vfs σ) :
    FdCall → FdResult × Thread × Vfs σ
  | .read len =>
      match fdRead dev t fd len with
      | some (out, t') => (some (out.length, out), t', v)
      | none => (none, t, v)
  | .write data =>
      match fdWrite dev who t v fd data with
      | (some (done, t'), v') => (some (done, []), t', v')
      | (none, v') => (none, t, v')
  | .lseek offset whence =>
      match fdLseek t fd offset whence with
      | some (p, t') => (some (p, []), t', v)
      | none => (none, t, v)
  | .stat => (((fdStat t fd).map fun r => (Int.ofNat r.1, [])), t, v)

/-- The descriptor, and the cursor it should behave as. -/
structure Descriptor (σ : Type) where
  thread : Thread
  vfs : Vfs σ
  cursor : FileCursor

/-- Whether the filesystem takes a new content for the file. -/
def accepts (who : Identity) (v : Vfs σ) (path : CString) (new : List UInt8) : Bool :=
  (vfsWriteFile who v path new).1 = 0

/-- One call, on the descriptor and on the cursor. -/
def descriptorStep (dev : Devices σ) (who : Identity) (fd : Int) (path : CString)
    (x : Descriptor σ) (call : FdCall) : Descriptor σ :=
  let done := fdCall dev who fd x.thread x.vfs call
  ⟨done.2.1, done.2.2, (x.cursor.call (accepts who x.vfs path) call).2⟩

/-- The call returns what the cursor returns, and leaves the file with the cursor's
content. -/
def Follows (dev : Devices σ) (who : Identity) (fd : Int) (path : CString)
    (content : σ → List UInt8) (x : Descriptor σ) (call : FdCall) : Prop :=
  (fdCall dev who fd x.thread x.vfs call).1 = (x.cursor.call (accepts who x.vfs path) call).1 ∧
    content (fdCall dev who fd x.thread x.vfs call).2.2.store =
      (x.cursor.call (accepts who x.vfs path) call).2.content

instance (dev : Devices σ) (who : Identity) (fd : Int) (path : CString)
    (content : σ → List UInt8) (x : Descriptor σ) (call : FdCall) :
    Decidable (Follows dev who fd path content x call) :=
  inferInstanceAs (Decidable (_ ∧ _))

/-- A read covers bytes on which the copy and the file agree; a write starts at the start
and covers the whole file, or would be refused anyway; a seek stays where the lengths do
not matter, and a stat where they are the same. -/
def CopyServes (who : Identity) (path : CString) (copy : List UInt8) (x : Descriptor σ) :
    FdCall → Prop
  | .read len => ∀ i < len, copy[x.cursor.pos + i]? = x.cursor.content[x.cursor.pos + i]?
  | .write data =>
      (x.cursor.pos = 0 ∧ x.cursor.content.length ≤ data.length) ∨
        (accepts who x.vfs path (overwrite x.cursor.content x.cursor.pos data) = false ∧
          (x.cursor.pos ≠ 0 ∨ accepts who x.vfs path data = false))
  | .lseek offset whence =>
      copy.length = x.cursor.content.length ∨
        ∀ nv ∈ seekTarget x.cursor.pos x.cursor.content.length offset whence,
          ∀ nv' ∈ seekTarget x.cursor.pos copy.length offset whence,
            (nv < 0 ∧ nv' < 0) ∨
              (nv = nv' ∧ nv ≤ copy.length ∧ nv ≤ x.cursor.content.length)
  | .stat => copy.length = x.cursor.content.length

/-- What the backend does below a mount, in its `good` states: a write stores what it is
given or leaves the file alone, and a read returns what is stored. -/
structure BackendLaw (ops : VfsOps σ) (rel : CString) (good : σ → Prop)
    (content : σ → List UInt8) : Prop where
  writes : ∀ f, ops.writeFile = some f → ∀ st data, good st → good (f st rel data).2 ∧
    content (f st rel data).2 = if (f st rel data).1 = 0 then data else content st
  asks : ∀ f, ops.readFile = some f → ∀ st, good st → (f st rel none).rc = 0 →
    (f st rel none).outLen = some (content st).length
  reads : ∀ f, ops.readFile = some f → ∀ st cap, good st → (f st rel (some cap)).rc = 0 →
    (f st rel (some cap)).outLen = some (content st).length ∧ (f st rel (some cap)).out = content st

/-! ## The VFS in between -/

section Backend

variable {who : Identity} {v : Vfs σ} {path : CString} {m : Mount σ} {rel : CString}
  {good : σ → Prop} {content : σ → List UInt8}

theorem vfsWriteFile_content (who : Identity) (sound : good v.store)
    (mount : vfsFindMount v.mounts path = some (m, rel))
    (law : BackendLaw m.ops rel good content) (data : List UInt8) :
    good (vfsWriteFile who v path data).2.store ∧
      content (vfsWriteFile who v path data).2.store =
        if (vfsWriteFile who v path data).1 = 0 then data else content v.store := by
  unfold vfsWriteFile vfsChange
  split
  · rw [mount]
    dsimp only
    rcases m.ops.writeFile.eq_none_or_eq_some with eq | ⟨f, eq⟩
    · simp [eq, sound]
    · simp only [eq, Option.map_some]
      exact law.writes f eq v.store data sound
  · exact ⟨sound, rfl⟩

theorem vfsWriteFile_mounts (data : List UInt8) :
    (vfsWriteFile who v path data).2.mounts = v.mounts := by
  unfold vfsWriteFile vfsChange
  split
  · split
    · split
      · rfl
      · rfl
    · rfl
  · rfl

theorem vfsReadFile_frame (who : Identity) (v : Vfs σ) (path : CString) (cap : Option Nat) :
    (vfsReadFile who v path cap).2.store = v.store ∧
      (vfsReadFile who v path cap).2.mounts = v.mounts := by
  unfold vfsReadFile
  split
  · split
    · split
      · exact ⟨rfl, rfl⟩
      · exact ⟨rfl, rfl⟩
    · exact ⟨rfl, rfl⟩
  · exact ⟨rfl, rfl⟩

/-- A read that succeeds is one of the backend. -/
theorem vfsReadFile_backend (mount : vfsFindMount v.mounts path = some (m, rel)) {cap : Option Nat}
    (ok : (vfsReadFile who v path cap).1.rc = 0) :
    ∃ f, m.ops.readFile = some f ∧ (vfsReadFile who v path cap).1 = f v.store rel cap := by
  unfold vfsReadFile at ok ⊢
  split at ok
  next allowed =>
    rw [mount] at ok ⊢
    dsimp only at ok ⊢
    cases eq : m.ops.readFile with
    | none =>
        rw [eq] at ok
        exact absurd ok (by simp [readFailure])
    | some f =>
        refine ⟨f, rfl, ?_⟩
        rw [if_pos allowed]
  next => exact absurd ok (by simp [readFailure])

/-- The copy that the opening makes is the content of the file. -/
theorem fdLoad_content {gotBuffer : Bool} {buf : List UInt8} {len : Nat} {w : Vfs σ}
    (loaded : fdLoad who v path gotBuffer = (some (buf, len), w))
    (sound : good w.store) (mount : vfsFindMount w.mounts path = some (m, rel))
    (law : BackendLaw m.ops rel good content) :
    buf = content w.store ∧ len = buf.length := by
  obtain ⟨askStore, askMounts⟩ := vfsReadFile_frame who v path none
  unfold fdLoad at loaded
  dsimp only at loaded
  split at loaded
  · exact absurd loaded (by simp)
  next asked =>
    have askedOk := not_not.1 asked
    split at loaded
    next empty =>
      obtain ⟨same, rfl⟩ := Prod.mk.inj loaded
      obtain ⟨rfl, rfl⟩ := Prod.mk.inj (Option.some.inj same)
      rw [askMounts] at mount
      obtain ⟨f, eq, answer⟩ := vfsReadFile_backend mount askedOk
      rw [askStore] at sound
      have length := law.asks f eq v.store sound (by rw [← answer, askedOk])
      rw [answer, length, Option.getD_some, List.length_eq_zero_iff] at empty
      rw [askStore, empty]
      exact ⟨rfl, rfl⟩
    next filled =>
      split at loaded
      · exact absurd loaded (by simp)
      · split at loaded
        · exact absurd loaded (by simp)
        next read =>
          have readOk := not_not.1 read
          obtain ⟨same, rfl⟩ := Prod.mk.inj loaded
          obtain ⟨rfl, rfl⟩ := Prod.mk.inj (Option.some.inj same)
          obtain ⟨readStore, readMounts⟩ := vfsReadFile_frame who
            (vfsReadFile who v path none).2 path
            (some ((vfsReadFile who v path none).1.outLen.getD 0))
          rw [readMounts] at mount
          obtain ⟨f, eq, answer⟩ := vfsReadFile_backend mount readOk
          rw [readStore] at sound
          obtain ⟨length, bytes⟩ := law.reads f eq _ _ sound (by rw [← answer, readOk])
          rw [readStore, answer, length, bytes]
          exact ⟨rfl, rfl⟩

end Backend

/-! ## One call -/

section Call

variable {dev : Devices σ} {who : Identity} {path : CString} {m : Mount σ} {rel : CString}
  {good : σ → Prop} {content : σ → List UInt8} {copy : List UInt8} {flags : UInt32} {fd : Int}
  {x : Descriptor σ}

/-- The descriptor is open for reading and writing on the path, its copy is the one made
at the opening, and it is where the cursor is; and the file is what the cursor says. -/
structure InStep (path : CString) (good : σ → Prop) (content : σ → List UInt8)
    (copy : List UInt8) (flags : UInt32) (fd : Int) (m : Mount σ) (rel : CString)
    (x : Descriptor σ) : Prop where
  entry : x.thread.entry fd = some ⟨.file copy copy.length, flags, x.cursor.pos, path⟩
  stored : content x.vfs.store = x.cursor.content
  sound : good x.vfs.store
  mount : vfsFindMount x.vfs.mounts path = some (m, rel)

theorem entry_setEntry {t : Thread} {e e' : FdEntry} (open_ : t.entry fd = some e) :
    (t.setEntry fd.toNat (some e')).entry fd = some e' := by
  unfold Thread.entry at open_ ⊢
  split at open_
  next range =>
    rw [if_pos range]
    exact Function.update_self ..
  · exact absurd open_ (by simp)

theorem fdCanRead_rw {e : FdEntry} (rw_ : e.flags &&& 3 = 2) : fdCanRead e = true := by
  simp [fdCanRead, rw_]

theorem fdCanWrite_rw {e : FdEntry} (rw_ : e.flags &&& 3 = 2) : fdCanWrite e = true := by
  simp [fdCanWrite, rw_]

/-- The bytes a read takes from the copy. -/
theorem fdRead_file {t : Thread} {pos : Nat} (rw_ : flags &&& 3 = 2)
    (open_ : t.entry fd = some ⟨.file copy copy.length, flags, pos, path⟩) (len : Nat) :
    fdRead dev t fd len = some ((copy.drop pos).take len,
      t.setEntry fd.toNat (some ⟨.file copy copy.length, flags,
        pos + ((copy.drop pos).take len).length, path⟩)) := by
  have cut : (copy.drop pos).take (min len (copy.length - pos)) = (copy.drop pos).take len := by
    rw [← List.length_drop, ← List.take_take, List.take_length]
  have moved : ((copy.drop pos).take len).length = min len (copy.length - pos) := by
    rw [List.length_take, List.length_drop]
  unfold fdRead
  rw [open_]
  simp only [fdCanRead_rw (e := ⟨.file copy copy.length, flags, pos, path⟩) rw_, Bool.not_true,
    Bool.false_eq_true, if_false, cut, moved]

/-- Two lists agree on a range exactly if the same bytes are read of it. -/
theorem take_drop_eq_iff {a b : List UInt8} {pos len : Nat} :
    (a.drop pos).take len = (b.drop pos).take len ↔ ∀ i < len, a[pos + i]? = b[pos + i]? := by
  constructor
  · intro same i lt
    have at_ := congrArg (·[i]?) same
    simpa [List.getElem?_take, lt, List.getElem?_drop] using at_
  · intro agree
    refine List.ext_getElem? fun i => ?_
    rw [List.getElem?_take, List.getElem?_take]
    split
    next lt => simpa only [List.getElem?_drop] using agree i lt
    · rfl

theorem read_follows_iff (inStep : InStep path good content copy flags fd m rel x)
    (rw_ : flags &&& 3 = 2) (len : Nat) :
    Follows dev who fd path content x (.read len) ↔ CopyServes who path copy x (.read len) := by
  simp only [Follows, fdCall, fdRead_file rw_ inStep.entry, FileCursor.call, CopyServes,
    inStep.stored, and_true, Option.some.injEq, Prod.mk.injEq]
  rw [← take_drop_eq_iff]
  refine ⟨fun same => same.2, fun same => ?_⟩
  rw [same]
  exact ⟨rfl, rfl⟩

theorem stat_follows_iff (inStep : InStep path good content copy flags fd m rel x) :
    Follows dev who fd path content x .stat ↔ CopyServes who path copy x .stat := by
  simp only [Follows, fdCall, fdStat, inStep.entry, Option.map_some, FileCursor.call, CopyServes,
    inStep.stored, and_true, Option.some.injEq, Prod.mk.injEq]
  exact Int.ofNat_inj

theorem fdLseek_file {t : Thread} {pos : Nat}
    (open_ : t.entry fd = some ⟨.file copy copy.length, flags, pos, path⟩) (offset whence : Int) :
    fdLseek t fd offset whence = (seek pos copy.length offset whence).map fun p : Nat =>
      ((p : Int), t.setEntry fd.toNat (some ⟨.file copy copy.length, flags, p, path⟩)) := by
  unfold fdLseek seek seekTarget
  rw [open_]
  dsimp only
  split
  · simp only [Option.bind_some, Int.zero_add]
    split <;> rfl
  split
  · simp only [Option.bind_some]
    split <;> rfl
  split
  · simp only [Option.bind_some]
    split <;> rfl
  · rfl

/-- Cutting two targets to two lengths, where the targets are the same or as far apart as
the lengths. -/
theorem cut_eq_iff {nv nv' : Int} {len len' : Nat}
    (apart : nv' - nv = 0 ∨ nv' - nv = len - len') :
    ((if nv' < 0 then none else some (min nv'.toNat len)) =
        if nv < 0 then none else some (min nv.toNat len')) ↔
      len = len' ∨ (nv < 0 ∧ nv' < 0) ∨ (nv = nv' ∧ nv ≤ len ∧ nv ≤ len') := by
  split
  next before' =>
    split
    next before => exact iff_of_true rfl (.inr (.inl ⟨before, before'⟩))
    next => exact iff_of_false (by simp) (by omega)
  next =>
    split
    next => exact iff_of_false (by simp) (by omega)
    next =>
      rw [Option.some.injEq]
      omega

/-- Two lengths give the same seek exactly if they are the same, or the target lies
before the start or inside both. -/
theorem seek_eq_iff {pos len len' : Nat} {offset whence : Int} :
    seek pos len offset whence = seek pos len' offset whence ↔
      len = len' ∨ ∀ nv ∈ seekTarget pos len' offset whence,
        ∀ nv' ∈ seekTarget pos len offset whence,
          (nv < 0 ∧ nv' < 0) ∨ (nv = nv' ∧ nv ≤ len ∧ nv ≤ len') := by
  unfold seek seekTarget
  split
  · simpa using cut_eq_iff (.inl (Int.sub_self offset))
  split
  · simpa using cut_eq_iff (.inl (Int.sub_self (pos + offset)))
  split
  · have apart : ((len : Int) + offset) - (len' + offset) = 0 ∨
        ((len : Int) + offset) - (len' + offset) = len - len' := .inr (by omega)
    simpa using cut_eq_iff apart
  · simp

theorem lseek_follows_iff (inStep : InStep path good content copy flags fd m rel x)
    (offset whence : Int) :
    Follows dev who fd path content x (.lseek offset whence) ↔
      CopyServes who path copy x (.lseek offset whence) := by
  have same : Follows dev who fd path content x (.lseek offset whence) ↔
      seek x.cursor.pos copy.length offset whence =
        seek x.cursor.pos x.cursor.content.length offset whence := by
    unfold Follows
    simp only [fdCall, fdLseek_file inStep.entry, FileCursor.call]
    cases seek x.cursor.pos copy.length offset whence with
    | none =>
        cases seek x.cursor.pos x.cursor.content.length offset whence with
        | none => simp [inStep.stored]
        | some q => simp
    | some p =>
        cases seek x.cursor.pos x.cursor.content.length offset whence with
        | none => simp
        | some q => simp [inStep.stored]
  exact same.trans seek_eq_iff

/-- `fd_write` from the start replaces the file. -/
theorem fdWrite_start {t : Thread} {v : Vfs σ} (rw_ : flags &&& 3 = 2)
    (open_ : t.entry fd = some ⟨.file copy copy.length, flags, 0, path⟩) (data : List UInt8) :
    fdWrite dev who t v fd data =
      (if accepts who v path data then some ((data.length : Int), t.setEntry fd.toNat
        (some ⟨.file copy copy.length, flags, data.length, path⟩)) else none,
        (vfsWriteFile who v path data).2) := by
  unfold fdWrite accepts
  rw [open_]
  simp only [fdCanWrite_rw (e := ⟨.file copy copy.length, flags, 0, path⟩) rw_, Bool.not_true,
    Bool.false_eq_true, if_false, ne_eq, not_true, if_false]
  split
  next refused => simp [refused]
  next taken => simp [not_not.1 taken]

/-- Elsewhere it is refused. -/
theorem fdWrite_behind {t : Thread} {v : Vfs σ} {pos : Nat} (rw_ : flags &&& 3 = 2)
    (open_ : t.entry fd = some ⟨.file copy copy.length, flags, pos, path⟩) (behind : pos ≠ 0)
    (data : List UInt8) : fdWrite dev who t v fd data = (none, v) := by
  unfold fdWrite
  rw [open_]
  simp only [fdCanWrite_rw (e := ⟨.file copy copy.length, flags, pos, path⟩) rw_, Bool.not_true,
    Bool.false_eq_true, if_false, if_pos behind]

/-- Written at the start over the whole file, the bytes are the file. -/
theorem overwrite_start {old data : List UInt8} (covers : old.length ≤ data.length) :
    overwrite old 0 data = data := by
  rw [overwrite, Nat.zero_add, List.drop_eq_nil_of_le covers]
  simp

/-- Shorter bytes are not. -/
theorem overwrite_ne {old data : List UInt8} (short : data.length < old.length) :
    data ≠ overwrite old 0 data := by
  intro same
  have length := congrArg List.length same
  simp only [overwrite, List.take_zero, List.nil_append, List.length_append, List.length_drop,
    Nat.zero_add] at length
  omega

theorem write_follows_iff (inStep : InStep path good content copy flags fd m rel x)
    (law : BackendLaw m.ops rel good content) (rw_ : flags &&& 3 = 2) (data : List UInt8) :
    Follows dev who fd path content x (.write data) ↔
      CopyServes who path copy x (.write data) := by
  have entry := inStep.entry
  unfold Follows CopyServes
  simp only [fdCall, FileCursor.call]
  by_cases start : x.cursor.pos = 0
  · rw [start] at entry ⊢
    have after := (vfsWriteFile_content who inStep.sound inStep.mount law data).2
    rw [fdWrite_start rw_ entry]
    rcases Nat.lt_or_ge data.length x.cursor.content.length with short | covers
    · -- the old end of the file is lost
      have lost := overwrite_ne short
      have notCovered : ¬ x.cursor.content.length ≤ data.length := Nat.not_le_of_lt short
      cases taken : accepts who x.vfs path data with
      | true =>
          rw [if_pos (of_decide_eq_true taken)] at after
          cases accepts who x.vfs path (overwrite x.cursor.content 0 data) with
          | true => simp [after, notCovered, lost]
          | false => simp [notCovered]
      | false =>
          rw [if_neg (of_decide_eq_false taken)] at after
          cases accepts who x.vfs path (overwrite x.cursor.content 0 data) with
          | true => simp [notCovered]
          | false => simp [after, inStep.stored]
    · rw [overwrite_start covers]
      cases taken : accepts who x.vfs path data with
      | true =>
          rw [if_pos (of_decide_eq_true taken)] at after
          simp [after, covers]
      | false =>
          rw [if_neg (of_decide_eq_false taken)] at after
          simp [after, covers, inStep.stored]
  · rw [fdWrite_behind rw_ entry start]
    cases accepts who x.vfs path (overwrite x.cursor.content x.cursor.pos data) with
    | true => simp [start]
    | false => simp [start, inStep.stored]

theorem follows_iff (inStep : InStep path good content copy flags fd m rel x)
    (law : BackendLaw m.ops rel good content) (rw_ : flags &&& 3 = 2) (call : FdCall) :
    Follows dev who fd path content x call ↔ CopyServes who path copy x call := by
  cases call with
  | read len => exact read_follows_iff inStep rw_ len
  | write data => exact write_follows_iff inStep law rw_ data
  | lseek offset whence => exact lseek_follows_iff inStep offset whence
  | stat => exact stat_follows_iff inStep

/-- A call that follows the cursor leaves the descriptor where the cursor is. -/
theorem descriptorStep_inStep (inStep : InStep path good content copy flags fd m rel x)
    (law : BackendLaw m.ops rel good content) (rw_ : flags &&& 3 = 2) {call : FdCall}
    (follows : Follows dev who fd path content x call) :
    InStep path good content copy flags fd m rel (descriptorStep dev who fd path x call) := by
  obtain ⟨sameResult, stored⟩ := follows
  have entry := inStep.entry
  unfold descriptorStep
  cases call with
  | read len =>
      simp only [fdCall, fdRead_file rw_ entry, FileCursor.call] at sameResult stored ⊢
      have bytes := (Prod.mk.inj (Option.some.inj sameResult)).2
      exact ⟨by rw [entry_setEntry entry, bytes], stored, inStep.sound, inStep.mount⟩
  | write data =>
      simp only [fdCall, FileCursor.call] at sameResult stored ⊢
      by_cases start : x.cursor.pos = 0
      · rw [start] at entry sameResult stored ⊢
        rw [fdWrite_start rw_ entry] at sameResult stored ⊢
        have mount : vfsFindMount (vfsWriteFile who x.vfs path data).2.mounts path =
            some (m, rel) := by
          rw [vfsWriteFile_mounts]
          exact inStep.mount
        have sound := (vfsWriteFile_content who inStep.sound inStep.mount law data).1
        cases taken : accepts who x.vfs path data with
        | true =>
            cases refit : accepts who x.vfs path (overwrite x.cursor.content 0 data) with
            | true =>
                simp only [taken, refit, if_true] at stored ⊢
                exact ⟨by rw [entry_setEntry entry, Nat.zero_add], stored, sound, mount⟩
            | false => simp [taken, refit] at sameResult
        | false =>
            cases refit : accepts who x.vfs path (overwrite x.cursor.content 0 data) with
            | true => simp [taken, refit] at sameResult
            | false =>
                simp only [taken, refit, Bool.false_eq_true, if_false] at stored ⊢
                exact ⟨by rw [entry, start], stored, sound, mount⟩
      · rw [fdWrite_behind rw_ entry start] at sameResult stored ⊢
        cases refit : accepts who x.vfs path (overwrite x.cursor.content x.cursor.pos data) with
        | true => simp [refit] at sameResult
        | false =>
            simp only [Bool.false_eq_true, if_false]
            exact inStep
  | lseek offset whence =>
      simp only [fdCall, fdLseek_file entry, FileCursor.call] at sameResult stored ⊢
      cases mine : seek x.cursor.pos copy.length offset whence with
      | none =>
          cases its : seek x.cursor.pos x.cursor.content.length offset whence with
          | none => exact inStep
          | some q => simp [mine, its] at sameResult
      | some p =>
          cases its : seek x.cursor.pos x.cursor.content.length offset whence with
          | none => simp [mine, its] at sameResult
          | some q =>
              simp only [mine, its, Option.map_some, Option.some.injEq, Prod.mk.injEq, and_true,
                Int.natCast_inj] at sameResult
              subst sameResult
              exact ⟨entry_setEntry entry, inStep.stored, inStep.sound, inStep.mount⟩
  | stat => exact inStep

end Call

/-! ## The opening -/

section Opening

variable {who : Identity} {path : CString} {m : Mount σ} {rel : CString} {good : σ → Prop}
  {content : σ → List UInt8} {flags : UInt32} {t₀ t : Thread} {v₀ v : Vfs σ} {fd : Nat}
  {gotBuffer : Bool}

theorem fdAllocSlot_lt {i : Nat} (found : fdAllocSlot t = some i) : i < fdMax :=
  List.mem_range.1 (List.mem_of_find?_eq_some found)

/-- A descriptor just opened is at the start of the file and holds a copy of it. -/
theorem fdOpenFile_inStep
    (opened : fdOpenFile who t₀ v₀ path flags gotBuffer = (some (fd, t), v))
    (fits : path.length < vfsMaxPath) (sound : good v.store)
    (mount : vfsFindMount v.mounts path = some (m, rel))
    (law : BackendLaw m.ops rel good content) :
    InStep path good content (content v.store) flags (fd : Int) m rel
      ⟨t, v, ⟨content v.store, 0⟩⟩ := by
  refine ⟨?_, rfl, sound, mount⟩
  unfold fdOpenFile at opened
  split at opened
  · exact absurd opened (by simp)
  next v₁ _ _ =>
    split at opened
    · exact absurd opened (by simp)
    next buf len v₂ loaded =>
      split at opened
      · exact absurd opened (by simp)
      next i found =>
        obtain ⟨same, rfl⟩ := Prod.mk.inj opened
        obtain ⟨rfl, rfl⟩ := Prod.mk.inj (Option.some.inj same)
        obtain ⟨rfl, rfl⟩ := fdLoad_content loaded sound mount law
        have whole : path.take (vfsMaxPath - 1) = path :=
          List.take_of_length_le (Nat.le_sub_one_of_lt fits)
        have range : 0 ≤ (i : Int) ∧ (i : Int) < fdMax :=
          ⟨Int.natCast_nonneg i, Int.ofNat_lt.2 (fdAllocSlot_lt found)⟩
        rw [Thread.entry, if_pos range, Int.toNat_natCast, whole]
        exact Function.update_self ..

end Opening

/-! ## The RAM filesystem below -/

/-- The bytes the RAM filesystem has at a path. -/
def ramfsFile (path : CString) (fs : Ramfs) : List UInt8 :=
  match (ramfsResolve fs path false).node with
  | .ok node => ramfsContent fs (fs.nodes node)
  | .error _ => []

/-- The RAM filesystem is in order and has a file at the path. -/
structure HasFile (path : CString) (fs : Ramfs) : Prop where
  root : RootOk fs
  pool : PoolOk fs
  file : ∃ node, (ramfsResolve fs path false).node = .ok node ∧ fs.Live node

/-- The RAM filesystem stores what it is given and returns it. -/
theorem ramfs_backendLaw (uid : Nat) (path : CString) :
    BackendLaw (ramfsOps uid) path (HasFile path) (ramfsFile path) := by
  refine ⟨?_, ?_, ?_⟩
  · rintro f ⟨⟩ fs data ⟨root, pool, node, leads, live⟩
    have write : ramfsOpWriteFile uid fs path data = ramfsStoreContent fs node data := by
      simp [ramfsOpWriteFile, ramfsOpCreateFile, ramfsResolve_finds leads, leads]
    have same := ramfsStoreContent_sameShape fs node data
    rw [write]
    rcases ramfsStoreContent_spec pool live.1 data with ⟨fails, unchanged⟩ | ⟨done, -, stores⟩
    · rw [unchanged, if_neg fails]
      exact ⟨⟨root, pool, node, leads, live⟩, rfl⟩
    · have leads' : (ramfsResolve (ramfsStoreContent fs node data).2 path false).node = .ok node :=
        (same.resolve path).trans leads
      refine ⟨⟨root.sameShape same, stores.poolOk, node, leads',
        (same.used node).trans live.1, (same.type node).trans live.2⟩, ?_⟩
      rw [if_pos done, ramfsFile, leads']
      exact stores.content
  · rintro f ⟨⟩ fs ⟨root, pool, node, leads, live⟩ -
    have sized : (fs.nodes node).Sized := fun none => (pool.blank node live.1 none).1
    rw [ramfsFile, leads, ramfsContent_length fs sized]
    simp [ramfsOpReadFile, leads, live.2]
  · rintro f ⟨⟩ fs cap ⟨root, pool, node, leads, live⟩ ok
    have sized : (fs.nodes node).Sized := fun none => (pool.blank node live.1 none).1
    rw [ramfsFile, leads, ramfsContent_length fs sized]
    by_cases small : cap < (fs.nodes node).size
    · simp [ramfsOpReadFile, leads, live.2, small] at ok
    · simp [ramfsOpReadFile, leads, live.2, small]

/-- No device is there. -/
def noDevices : Devices Ramfs where
  totalSectors _ := none
  readSectors _ _ _ _ := (-1, [])
  writeSectors fs _ _ _ := (-1, fs)
  raw _ fs := (-1, fs)
  residents _ _ _ _ := []
  probe _ mounts := mounts
  overlay _ mounts := mounts
  fileLen _ _ _ := none
  stream _ _ fs _ _ _ := (-1, fs)
  openNode _ := false
  readNode _ _ := none
  writeNode _ _ := none
  ioctlNode _ _ := -1

/-- A RAM filesystem with one file `/f` of one byte, mounted at the root. -/
def oneFile : Vfs Ramfs :=
  ⟨[ramfsRootMount 0], ramfsStep ramfsInit (.createFile 0 [slash, 0x66] 0 [1]), []⟩

/-- The thread that has `/f` open for reading and writing. -/
def openOneFile : Thread :=
  newThread.setEntry 0 (some ⟨.file [1] 1, 2, 0, [slash, 0x66]⟩)

theorem openOneFile_opened : fdOpenFile ⟨0, 0⟩ newThread oneFile [slash, 0x66] 2 true =
    (some (0, openOneFile), (fdOpenFile ⟨0, 0⟩ newThread oneFile [slash, 0x66] 2 true).2) := rfl

theorem oneFile_hasFile :
    HasFile [slash, 0x66] (fdOpenFile ⟨0, 0⟩ newThread oneFile [slash, 0x66] 2 true).2.store := by
  have made : PoolHolds (trackedStep ⟨ramfsInit, fun _ => []⟩ (.createFile 0 [slash, 0x66] 0 [1])) :=
    trackedStep_poolHolds ramfsInit_poolHolds _
  exact ⟨made.root, made.pool, 1, rfl, rfl, rfl⟩

/-- A run of calls on a descriptor just opened follows the cursor, from its first call to
its last, exactly as long as the copy made at the opening serves. -/
theorem descriptor_follows_iff {dev : Devices σ} {who : Identity} {path : CString} {m : Mount σ}
    {rel : CString} {good : σ → Prop} {content : σ → List UInt8} {flags : UInt32}
    {t₀ t : Thread} {v₀ v : Vfs σ} {fd : Nat} {gotBuffer : Bool}
    (opened : fdOpenFile who t₀ v₀ path flags gotBuffer = (some (fd, t), v))
    (readWrite : flags &&& 3 = 2) (fits : path.length < vfsMaxPath) (sound : good v.store)
    (mount : vfsFindMount v.mounts path = some (m, rel)) (law : BackendLaw m.ops rel good content)
    (calls : List FdCall) :
    AllSteps (descriptorStep dev who fd path) (Follows dev who fd path content)
        ⟨t, v, ⟨content v.store, 0⟩⟩ calls ↔
      AllSteps (descriptorStep dev who fd path) (CopyServes who path (content v.store))
        ⟨t, v, ⟨content v.store, 0⟩⟩ calls := by
  have same : ∀ x call, InStep path good content (content v.store) flags (fd : Int) m rel x →
      (Follows dev who fd path content x call ↔ CopyServes who path (content v.store) x call) :=
    fun x call inStep => follows_iff inStep law readWrite call
  have keep : ∀ x call, InStep path good content (content v.store) flags (fd : Int) m rel x →
      CopyServes who path (content v.store) x call →
      InStep path good content (content v.store) flags (fd : Int) m rel
        (descriptorStep dev who fd path x call) :=
    fun x call inStep serves =>
      descriptorStep_inStep inStep law readWrite ((same x call inStep).2 serves)
  exact allSteps_iff_of_invariant keep same (fdOpenFile_inStep opened fits sound mount law)

/-- On a file of one byte, written from its start and to its end. -/
theorem descriptor_follows_on_one_file :
    AllSteps (descriptorStep noDevices ⟨0, 0⟩ 0 [slash, 0x66])
        (Follows noDevices ⟨0, 0⟩ 0 [slash, 0x66] (ramfsFile [slash, 0x66]))
        ⟨openOneFile, (fdOpenFile ⟨0, 0⟩ newThread oneFile [slash, 0x66] 2 true).2, ⟨[1], 0⟩⟩
        [.read 1, .lseek 0 0, .write [1], .stat] ↔
      AllSteps (descriptorStep noDevices ⟨0, 0⟩ 0 [slash, 0x66])
        (CopyServes ⟨0, 0⟩ [slash, 0x66] [1])
        ⟨openOneFile, (fdOpenFile ⟨0, 0⟩ newThread oneFile [slash, 0x66] 2 true).2, ⟨[1], 0⟩⟩
        [.read 1, .lseek 0 0, .write [1], .stat] :=
  descriptor_follows_iff openOneFile_opened (by decide) (by decide) oneFile_hasFile
    (vfsFindMount_root 0 rfl) (ramfs_backendLaw 0 [slash, 0x66]) _

/-- Two bytes written over the one byte of a file are not what the next read returns. -/
theorem descriptor_returns_old_bytes :
    ¬ ∀ calls : List FdCall, AllSteps (descriptorStep noDevices ⟨0, 0⟩ 0 [slash, 0x66])
      (Follows noDevices ⟨0, 0⟩ 0 [slash, 0x66] (ramfsFile [slash, 0x66]))
      ⟨openOneFile, (fdOpenFile ⟨0, 0⟩ newThread oneFile [slash, 0x66] 2 true).2, ⟨[1], 0⟩⟩
      calls := by
  intro always
  exact absurd (always [.write [2, 2], .lseek 0 0, .read 2]) (by decide +kernel)

end NTux.Sys
