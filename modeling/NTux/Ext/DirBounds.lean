import NTux.Ext.DirTiling
import NTux.Ext.DirScans

/-!
# The bytes that the directory routines touch

Before a record is looked at, `ext2.c` and `ext4.c` check that its header of eight bytes lies
in the block.  The name behind it and the slack a new record is put in are found from
`name_len` and `rec_len`, which are not checked.

* `DirRoutine` — a scan and the bytes it touches at a record beyond the header.
* `Accessed` — the bytes the routine touches in a block.
* `Overlong` — the record or its name reaches past the end of the block.
* `StaysInside` — every byte touched lies in the buffer, and an overlong record is
  rejected before its name is compared or copied, or its slack used.
* `dir_accesses_inside_iff` — each routine stays inside exactly if it gets that far with no
  overlong record.
-/

namespace NTux.Ext

open NTux.Lib NTux.Lib.Bytes

/-- What a byte belongs to: the header of a record, its name, or the place of a new
record. -/
inductive RecordPart where
  | header
  | name
  | slack
  deriving DecidableEq, Repr

/-- A byte of the buffer read or written for the record at the offset `record`. -/
structure DirAccess where
  record : Nat
  part : RecordPart
  byte : Nat
  deriving DecidableEq, Repr

/-- The `n` bytes from `start` on. -/
def dirAccesses (record : Nat) (part : RecordPart) (start n : Nat) : List DirAccess :=
  (List.range n).map fun i => ⟨record, part, start + i⟩

/-- A routine: its loop, and the bytes it touches at the `k`-th record, at the given offset,
once the length of the record has been checked. -/
structure DirRoutine where
  scan : DirScan
  body : (size : Nat) → Bytes → ℕ → Nat → List DirAccess

/-- The bytes touched: the header of each record visited, and the body where `rec_len` is at
least eight. -/
def DirRoutine.Accessed (r : DirRoutine) (size : Nat) (buf : Bytes) (a : DirAccess) : Prop :=
  ∃ k o, r.scan.visited size buf 0 k = some o ∧
    (a ∈ dirAccesses o .header o 8 ∨
      8 ≤ (dirEntryAt buf o).recLen ∧ a ∈ r.body size buf k o)

/-- How many bytes the comparison of `ext2_name_equals` reads, up to the first that differs. -/
def comparedBytes (buf : Bytes) : Nat → List UInt8 → Nat
  | _, [] => 0
  | o, c :: cs => if buf o = c then comparedBytes buf (o + 1) cs + 1 else 1

/-- The name of the record is compared: it is in use and of the length of the name. -/
def comparesName (name : List UInt8) (buf : Bytes) (o : Nat) : Bool :=
  (dirEntryAt buf o).live && (dirEntryAt buf o).nameLen = name.length

/-- `ext2_name_equals` for the record at `o`. -/
def nameEqualsBytes (name : List UInt8) (buf : Bytes) (o : Nat) : List DirAccess :=
  if comparesName name buf o then dirAccesses o .name (o + 8) (comparedBytes buf (o + 8) name)
  else []

/-- `ext2_dir_find`, `ext4_dir_find`. -/
def extDirFindRoutine (name : List UInt8) : DirRoutine where
  scan := extDirFindScan name
  body _ buf _ o := nameEqualsBytes name buf o

/-- `ext2_dir_remove_entry`, `ext4_dir_remove_entry`: the scan of find-slot, then the header
of the record found and of the one before it. -/
def extDirRemoveRoutine (name : List UInt8) : DirRoutine where
  scan := extDirFindSlotScan name
  body size buf k o :=
    nameEqualsBytes name buf o ++
      if (dirEntryAt buf o).names name then
        dirAccesses o .header o 8 ++
          match k with
          | 0 => []
          | k + 1 =>
              match (extDirFindSlotScan name).visited size buf 0 k with
              | some prev => dirAccesses prev .header prev 8
              | none => []
      else []

/-- Where the loop of `ext2_dir_add_entry` puts the new record. -/
def placeBytes (len : Nat) (buf : Bytes) (o : Nat) : List DirAccess :=
  let e := dirEntryAt buf o
  let need := extAlign4 (8 + len)
  if e.unused need then dirAccesses o .slack (o + 8) len
  else if e.used + need ≤ e.recLen then
    dirAccesses o .slack (o + e.used) 8 ++ dirAccesses o .slack (o + e.used + 8) len
  else []

/-- `ext2_dir_add_entry`, `ext4_dir_add_entry`, in a block that the directory has. -/
def extDirAddRoutine (len : Nat) : DirRoutine where
  scan := extDirAddScan (extAlign4 (8 + len))
  body _ buf _ o := placeBytes len buf o

/-- The bytes of a block that the directory gets. -/
def newBlockBytes (size len : Nat) : List DirAccess :=
  dirAccesses 0 .slack 0 size ++ dirAccesses 0 .header 0 8 ++ dirAccesses 0 .slack 8 len

/-- The record is one that a listing counts, the dots included: in use and with a name
shorter than `VFS_MAX_NAME`. -/
def DirEntry.listable (e : DirEntry) : Bool := e.live && e.nameLen < 64

/-- The entries listed before the `k`-th record of the block, those of earlier blocks included. -/
def listCount (size : Nat) (buf : Bytes) (before : Nat) (k : ℕ) : Nat :=
  before + Nat.count (fun j => (extListDirScan.visited size buf 0 j).any (fun o =>
    let e := dirEntryAt buf o
    8 ≤ e.recLen && e.listable && !e.isDot) = true) k

/-- How many bytes the two tests for the dots read. -/
def dotBytes (buf : Bytes) (o : Nat) : Nat :=
  let e := dirEntryAt buf o
  if e.nameLen = 1 then 1
  else if e.nameLen = 2 then if buf (o + 8) = 46 then 2 else 1
  else 0

/-- `ext2_op_list_dir`, `ext4_op_list_dir` in one block: `room` tells for each count of
entries whether the next is stored, which takes a buffer and a slot in it. -/
def extListDirRoutine (room : Nat → Bool) (before : Nat) : DirRoutine where
  scan := extListDirScan
  body size buf k o :=
    let e := dirEntryAt buf o
    if e.listable then
      dirAccesses o .name (o + 8) (dotBytes buf o) ++
        if !e.isDot && room (listCount size buf before k) then
          dirAccesses o .name (o + 8) e.nameLen
        else []
    else []

/-- The record, or its name, reaches past the end of the block. -/
def Overlong (size : Nat) (buf : Bytes) (o : Nat) : Prop :=
  size < o + (dirEntryAt buf o).recLen ∨ size < o + 8 + (dirEntryAt buf o).nameLen

/-- Every byte touched is one of the first `limit`, and beyond the header only those of
records that end in the block are. -/
structure DirRoutine.StaysInside (r : DirRoutine) (size limit : Nat) (buf : Bytes) : Prop where
  inside : ∀ a, r.Accessed size buf a → a.byte < limit
  rejects : ∀ a, r.Accessed size buf a → a.part ≠ .header → ¬ Overlong size buf a.record

/-- The routine gets as far as `uses` with no overlong record. -/
def DirRoutine.Spares (r : DirRoutine) (size : Nat) (buf : Bytes) (uses : ℕ → Nat → Bool) :
    Prop :=
  ∀ k o, r.scan.visited size buf 0 k = some o → 8 ≤ (dirEntryAt buf o).recLen →
    Overlong size buf o → uses k o = false

/-! ## Which bytes -/

variable {size limit len : Nat} {buf : Bytes} {name : List UInt8} {o k : Nat}

@[simp] theorem mem_dirAccesses {record start n : Nat} {part : RecordPart} {a : DirAccess} :
    a ∈ dirAccesses record part start n ↔
      a.record = record ∧ a.part = part ∧ start ≤ a.byte ∧ a.byte < start + n := by
  constructor
  · intro mem
    obtain ⟨i, lt, rfl⟩ := List.mem_map.mp mem
    have := List.mem_range.mp lt
    exact ⟨rfl, rfl, by simp, by simpa using this⟩
  · rintro ⟨rfl, rfl, ge, lt⟩
    refine List.mem_map.mpr ⟨a.byte - start, List.mem_range.mpr (by omega), ?_⟩
    rw [Nat.add_sub_of_le ge]

theorem comparedBytes_le (buf : Bytes) (name : List UInt8) (o : Nat) :
    comparedBytes buf o name ≤ name.length := by
  induction name generalizing o with
  | nil => exact le_refl _
  | cons c cs ih =>
      have rest := ih (o + 1)
      unfold comparedBytes
      split <;> simp only [List.length_cons] <;> omega

theorem comparedBytes_pos (buf : Bytes) (o : Nat) (c : UInt8) (cs : List UInt8) :
    0 < comparedBytes buf o (c :: cs) := by
  unfold comparedBytes
  split <;> omega

theorem le_extAlign4 (v : Nat) : v ≤ extAlign4 v := by
  unfold extAlign4
  omega

theorem not_overlong (fine : ¬ Overlong size buf o) :
    o + (dirEntryAt buf o).recLen ≤ size ∧ o + 8 + (dirEntryAt buf o).nameLen ≤ size := by
  unfold Overlong at fine
  omega

/-- What a routine has to meet: at a record its body touches something beyond a header
exactly if `uses` holds, only of this record, and inside the block if the record is not
overlong; and the headers it touches are those of records visited. -/
structure DirRoutine.Touches (r : DirRoutine) (size : Nat) (buf : Bytes) (uses : ℕ → Nat → Bool) :
    Prop where
  some_iff : ∀ k o, (∃ a ∈ r.body size buf k o, a.part ≠ .header) ↔ uses k o = true
  own : ∀ k o, ∀ a ∈ r.body size buf k o, a.part ≠ .header → a.record = o
  fits : ∀ k o, ¬ Overlong size buf o → ∀ a ∈ r.body size buf k o, a.part ≠ .header →
    a.byte < size
  headers : ∀ k o, o + 8 ≤ size → ∀ a ∈ r.body size buf k o, a.part = .header → a.byte < size

/-- A routine stays inside exactly if it spares the overlong records. -/
theorem DirRoutine.Touches.staysInside_iff {r : DirRoutine} {uses : ℕ → Nat → Bool}
    (touches : r.Touches size buf uses) (room : size ≤ limit) :
    r.StaysInside size limit buf ↔ r.Spares size buf uses := by
  constructor
  · intro stays k o visit long passes
    cases use : uses k o with
    | false => rfl
    | true =>
        obtain ⟨a, mem, beyond⟩ := (touches.some_iff k o).mpr use
        have rejected := stays.rejects a ⟨k, o, visit, .inr ⟨long, mem⟩⟩ beyond
        rw [touches.own k o a mem beyond] at rejected
        exact absurd passes rejected
  · intro spares
    have fine : ∀ k o, r.scan.visited size buf 0 k = some o → 8 ≤ (dirEntryAt buf o).recLen →
        ∀ a ∈ r.body size buf k o, a.part ≠ .header → ¬ Overlong size buf o := by
      intro k o visit long a mem beyond passes
      have unused := spares k o visit long passes
      rw [(touches.some_iff k o).mp ⟨a, mem, beyond⟩] at unused
      cases unused
    constructor
    · rintro a ⟨k, o, visit, header | ⟨long, mem⟩⟩
      · have fits := DirScan.visited_fits visit
        have place := mem_dirAccesses.mp header
        omega
      · by_cases part : a.part = .header
        · exact lt_of_lt_of_le
            (touches.headers k o (DirScan.visited_fits visit) a mem part) room
        · exact lt_of_lt_of_le
            (touches.fits k o (fine k o visit long a mem part) a mem part) room
    · rintro a ⟨k, o, visit, header | ⟨long, mem⟩⟩ beyond
      · exact absurd (mem_dirAccesses.mp header).2.1 beyond
      · rw [touches.own k o a mem beyond]
        exact fine k o visit long a mem beyond

/-- A byte beyond the header, of the record at `o`, before the end of the record or of its
name. -/
structure DirAccess.Beyond (buf : Bytes) (o : Nat) (a : DirAccess) : Prop where
  record : a.record = o
  part : a.part ≠ .header
  ends : a.byte < o + 8 + (dirEntryAt buf o).nameLen ∨ a.byte < o + (dirEntryAt buf o).recLen

/-- A routine that touches, beyond the headers visited, only the record itself. -/
theorem DirRoutine.touches_of_beyond {r : DirRoutine} {uses : ℕ → Nat → Bool}
    (only : ∀ k o, ∀ a ∈ r.body size buf k o, uses k o = true ∧ a.Beyond buf o)
    (some : ∀ k o, uses k o = true → ∃ a, a ∈ r.body size buf k o) :
    r.Touches size buf uses where
  some_iff k o := by
    constructor
    · rintro ⟨a, mem, -⟩
      exact (only k o a mem).1
    · intro use
      obtain ⟨a, mem⟩ := some k o use
      exact ⟨a, mem, (only k o a mem).2.part⟩
  own k o a mem _ := (only k o a mem).2.record
  fits k o fine a mem _ := by
    obtain ⟨record, name⟩ := not_overlong fine
    rcases (only k o a mem).2.ends with lt | lt
    · exact lt_of_lt_of_le lt name
    · exact lt_of_lt_of_le lt record
  headers k o _ a mem part := absurd part (only k o a mem).2.part

/-! ## The routines -/

theorem mem_nameEqualsBytes {a : DirAccess} (mem : a ∈ nameEqualsBytes name buf o) :
    comparesName name buf o = true ∧ a.Beyond buf o := by
  unfold nameEqualsBytes at mem
  split at mem
  next compares =>
    obtain ⟨record, part, -, lt⟩ := mem_dirAccesses.mp mem
    have most := comparedBytes_le buf name (o + 8)
    have len : (dirEntryAt buf o).nameLen = name.length := by
      simpa using (Bool.and_eq_true_iff.mp compares).2
    exact ⟨compares, record, by simp [part], .inl (by omega)⟩
  next => cases mem

theorem exists_nameEqualsBytes (compares : comparesName name buf o = true) :
    (⟨o, .name, o + 8⟩ : DirAccess) ∈ nameEqualsBytes name buf o := by
  unfold nameEqualsBytes
  rw [if_pos compares]
  refine mem_dirAccesses.mpr ⟨rfl, rfl, le_refl _, ?_⟩
  have both := Bool.and_eq_true_iff.mp compares
  have live : 0 < (dirEntryAt buf o).nameLen := by
    have := both.1
    simp only [DirEntry.live, ne_eq, decide_eq_true_eq] at this
    exact this.2
  have len : (dirEntryAt buf o).nameLen = name.length := by simpa using both.2
  cases name with
  | nil => simp [len] at live
  | cons c cs =>
      have := comparedBytes_pos buf (o + 8) c cs
      dsimp only
      omega

theorem extDirFindRoutine_touches : (extDirFindRoutine name).Touches size buf
    fun _ o => comparesName name buf o :=
  DirRoutine.touches_of_beyond (fun _ _ _ mem => mem_nameEqualsBytes mem)
    fun _ _ compares => ⟨_, exists_nameEqualsBytes compares⟩

theorem mem_extDirRemove {a : DirAccess} (mem : a ∈ (extDirRemoveRoutine name).body size buf k o) :
    a ∈ nameEqualsBytes name buf o ∨
      a.part = .header ∧ (o + 8 ≤ size → a.byte < size) := by
  rcases List.mem_append.mp mem with compared | found
  · exact .inl compared
  · right
    split at found
    next =>
      rcases List.mem_append.mp found with here | before
      · obtain ⟨-, part, -, lt⟩ := mem_dirAccesses.mp here
        exact ⟨part, fun fits => by omega⟩
      · cases k with
        | zero => cases before
        | succ k =>
            dsimp only at before
            cases visit : (extDirFindSlotScan name).visited size buf 0 k with
            | none =>
                rw [visit] at before
                cases before
            | some prev =>
                rw [visit] at before
                obtain ⟨-, part, -, lt⟩ := mem_dirAccesses.mp before
                have := DirScan.visited_fits visit
                exact ⟨part, fun _ => by omega⟩
    next => cases found

/-- The removal adds headers of records visited to what the search touches. -/
theorem extDirRemoveRoutine_touches : (extDirRemoveRoutine name).Touches size buf
    fun _ o => comparesName name buf o where
  some_iff k o := by
    constructor
    · rintro ⟨a, mem, beyond⟩
      rcases mem_extDirRemove mem with compared | ⟨header, -⟩
      · exact (mem_nameEqualsBytes compared).1
      · exact absurd header beyond
    · intro compares
      exact ⟨_, List.mem_append_left _ (exists_nameEqualsBytes compares), by simp⟩
  own k o a mem beyond := by
    rcases mem_extDirRemove mem with compared | ⟨header, -⟩
    · exact (mem_nameEqualsBytes compared).2.record
    · exact absurd header beyond
  fits k o fine a mem beyond := by
    rcases mem_extDirRemove mem with compared | ⟨header, -⟩
    · exact extDirFindRoutine_touches.fits k o fine a compared beyond
    · exact absurd header beyond
  headers k o fits a mem part := by
    rcases mem_extDirRemove mem with compared | ⟨-, lt⟩
    · exact extDirFindRoutine_touches.headers k o fits a compared part
    · exact lt fits

theorem mem_placeBytes {a : DirAccess} (mem : a ∈ placeBytes len buf o) :
    (dirEntryAt buf o).hasRoom (extAlign4 (8 + len)) = true ∧ a.Beyond buf o := by
  have align := le_extAlign4 (8 + len)
  unfold placeBytes at mem
  dsimp only at mem
  split at mem
  next unused =>
    obtain ⟨record, part, -, lt⟩ := mem_dirAccesses.mp mem
    have enough : extAlign4 (8 + len) ≤ (dirEntryAt buf o).recLen := by
      simp only [DirEntry.unused, decide_eq_true_eq] at unused
      exact unused.2
    exact ⟨by simp [DirEntry.hasRoom, unused], record, by simp [part], .inr (by omega)⟩
  next =>
    split at mem
    next enough =>
      have room : (dirEntryAt buf o).hasRoom (extAlign4 (8 + len)) = true := by
        simp [DirEntry.hasRoom, enough]
      rcases List.mem_append.mp mem with header | name
      · obtain ⟨record, part, -, lt⟩ := mem_dirAccesses.mp header
        exact ⟨room, record, by simp [part], .inr (by omega)⟩
      · obtain ⟨record, part, -, lt⟩ := mem_dirAccesses.mp name
        exact ⟨room, record, by simp [part], .inr (by omega)⟩
    next => cases mem

theorem exists_placeBytes (pos : 0 < len)
    (room : (dirEntryAt buf o).hasRoom (extAlign4 (8 + len)) = true) :
    ∃ a, a ∈ placeBytes len buf o := by
  unfold placeBytes
  dsimp only
  split
  next =>
    exact ⟨⟨o, .slack, o + 8⟩, mem_dirAccesses.mpr ⟨rfl, rfl, le_refl _, by dsimp only; omega⟩⟩
  next used =>
    have enough : (dirEntryAt buf o).used + extAlign4 (8 + len) ≤ (dirEntryAt buf o).recLen := by
      simpa [DirEntry.hasRoom, used] using room
    rw [if_pos enough]
    refine ⟨⟨o, .slack, o + (dirEntryAt buf o).used⟩, List.mem_append_left _ ?_⟩
    exact mem_dirAccesses.mpr ⟨rfl, rfl, le_refl _, by dsimp only; omega⟩

theorem extDirAddRoutine_touches (pos : 0 < len) : (extDirAddRoutine len).Touches size buf
    fun _ o => (dirEntryAt buf o).hasRoom (extAlign4 (8 + len)) :=
  DirRoutine.touches_of_beyond (fun _ _ _ mem => mem_placeBytes mem)
    fun _ _ room => exists_placeBytes pos room

/-- The record's name is looked at by a listing: for the dots, or to be stored. -/
def readsName (room : Nat → Bool) (before size : Nat) (buf : Bytes) (k : ℕ) (o : Nat) : Bool :=
  (dirEntryAt buf o).listable &&
    ((dirEntryAt buf o).nameLen ≤ 2 || room (listCount size buf before k))

theorem dotBytes_le (buf : Bytes) (o : Nat) : dotBytes buf o ≤ (dirEntryAt buf o).nameLen := by
  unfold dotBytes
  dsimp only
  split
  next => omega
  next =>
    split
    next => split <;> omega
    next => omega

theorem dotBytes_eq_zero (long : 2 < (dirEntryAt buf o).nameLen) : dotBytes buf o = 0 := by
  unfold dotBytes
  dsimp only
  rw [if_neg (by omega), if_neg (by omega)]

theorem dotBytes_pos (pos : 0 < (dirEntryAt buf o).nameLen)
    (short : (dirEntryAt buf o).nameLen ≤ 2) : 0 < dotBytes buf o := by
  unfold dotBytes
  dsimp only
  split
  next => omega
  next => rw [if_pos (by omega)]; split <;> omega

theorem nameLen_pos {e : DirEntry} (listable : e.listable = true) : 0 < e.nameLen := by
  have := (Bool.and_eq_true_iff.mp listable).1
  simp only [DirEntry.live, ne_eq, decide_eq_true_eq] at this
  exact this.2

/-- A name longer than two bytes is none of the dots. -/
theorem isDot_of_long (listable : (dirEntryAt buf o).listable = true)
    (long : 2 < (dirEntryAt buf o).nameLen) : (dirEntryAt buf o).isDot = false := by
  have live := (Bool.and_eq_true_iff.mp listable).1
  simp only [DirEntry.live, ne_eq, decide_eq_true_eq] at live
  have used : rd32 buf o ≠ 0 := live.1
  have len : (dirEntryAt buf o).name.length = (dirEntryAt buf o).nameLen := by
    simp only [dirEntryAt, if_neg used]
    exact slice_length
  simp only [DirEntry.isDot, decide_eq_false_iff_not]
  rintro (one | two)
  · rw [one] at len
    simp only [List.length_singleton] at len
    omega
  · rw [two] at len
    simp only [List.length_cons, List.length_nil] at len
    omega

theorem mem_extListDir {room : Nat → Bool} {before : Nat} {a : DirAccess}
    (mem : a ∈ (extListDirRoutine room before).body size buf k o) :
    readsName room before size buf k o = true ∧ a.Beyond buf o := by
  have mem : a ∈ if (dirEntryAt buf o).listable then
      dirAccesses o .name (o + 8) (dotBytes buf o) ++
        if !(dirEntryAt buf o).isDot && room (listCount size buf before k) then
          dirAccesses o .name (o + 8) (dirEntryAt buf o).nameLen
        else []
    else [] := mem
  split at mem
  next listable =>
    rcases List.mem_append.mp mem with dots | stored
    · obtain ⟨record, part, ge, lt⟩ := mem_dirAccesses.mp dots
      have most := dotBytes_le buf o
      have short : (dirEntryAt buf o).nameLen ≤ 2 := by
        by_contra long
        rw [dotBytes_eq_zero (by omega)] at lt
        omega
      exact ⟨by simp [readsName, listable, short], record, by simp [part], .inl (by omega)⟩
    · split at stored
      next store =>
        obtain ⟨record, part, -, lt⟩ := mem_dirAccesses.mp stored
        have free := (Bool.and_eq_true_iff.mp store).2
        exact ⟨by simp [readsName, listable, free], record, by simp [part], .inl lt⟩
      next => cases stored
  next => cases mem

theorem exists_extListDir {room : Nat → Bool} {before : Nat}
    (reads : readsName room before size buf k o = true) :
    (⟨o, .name, o + 8⟩ : DirAccess) ∈ (extListDirRoutine room before).body size buf k o := by
  obtain ⟨listable, why⟩ := Bool.and_eq_true_iff.mp reads
  have pos := nameLen_pos listable
  show _ ∈ if (dirEntryAt buf o).listable then
      dirAccesses o .name (o + 8) (dotBytes buf o) ++
        if !(dirEntryAt buf o).isDot && room (listCount size buf before k) then
          dirAccesses o .name (o + 8) (dirEntryAt buf o).nameLen
        else []
    else []
  rw [if_pos listable]
  by_cases short : (dirEntryAt buf o).nameLen ≤ 2
  · have := dotBytes_pos pos short
    exact List.mem_append_left _ (mem_dirAccesses.mpr ⟨rfl, rfl, le_refl _, by dsimp only; omega⟩)
  · have free : room (listCount size buf before k) = true := by simpa [short] using why
    have plain := isDot_of_long listable (by omega)
    refine List.mem_append_right _ ?_
    rw [if_pos (by simp [plain, free])]
    exact mem_dirAccesses.mpr ⟨rfl, rfl, le_refl _, by dsimp only; omega⟩

theorem extListDirRoutine_touches (room : Nat → Bool) (before : Nat) :
    (extListDirRoutine room before).Touches size buf (readsName room before size buf) :=
  DirRoutine.touches_of_beyond (fun _ _ _ mem => mem_extListDir mem)
    fun _ _ reads => ⟨_, exists_extListDir reads⟩

/-! ## All routines -/

/-- For every block: each routine stays inside, whether the buffer is taken to end with the
block or later, exactly if no overlong record has its name looked at or its slack used; and
a block that a directory gets is written inside. -/
theorem dir_accesses_inside_iff {size limit : Nat} (least : 1024 ≤ size) (room : size ≤ limit)
    (buf : Bytes) :
    (∀ name, (extDirFindRoutine name).StaysInside size limit buf ↔
        (extDirFindRoutine name).Spares size buf fun _ o => comparesName name buf o) ∧
      (∀ name, (extDirRemoveRoutine name).StaysInside size limit buf ↔
        (extDirRemoveRoutine name).Spares size buf fun _ o => comparesName name buf o) ∧
      (∀ free before, (extListDirRoutine free before).StaysInside size limit buf ↔
        (extListDirRoutine free before).Spares size buf (readsName free before size buf)) ∧
      ∀ len, 0 < len → len ≤ 255 →
        ((extDirAddRoutine len).StaysInside size limit buf ↔
          (extDirAddRoutine len).Spares size buf fun _ o =>
            (dirEntryAt buf o).hasRoom (extAlign4 (8 + len))) ∧
        ∀ a ∈ newBlockBytes size len, a.byte < limit := by
  refine ⟨fun name => extDirFindRoutine_touches.staysInside_iff room,
    fun name => extDirRemoveRoutine_touches.staysInside_iff room,
    fun free before => (extListDirRoutine_touches free before).staysInside_iff room, ?_⟩
  intro len pos most
  refine ⟨(extDirAddRoutine_touches pos).staysInside_iff room, ?_⟩
  intro a mem
  simp only [newBlockBytes, List.mem_append, mem_dirAccesses] at mem
  omega

/-- A block of 4096 bytes whose last record, of eight bytes, has a name of one. -/
def lateNameBlock : Bytes :=
  Function.update (wr16 (wr32 (wr16 (fun _ => 0) 4 4088) 4088 1) 4092 8) 4094 1

/-- The name is compared, though the buffer ends where it begins. -/
theorem late_name_compared :
    ¬ ∀ size, 1024 ≤ size → size ≤ 4096 → ∀ buf name,
      (extDirFindRoutine name).StaysInside size 4096 buf := by
  intro stays
  have inside := (stays 4096 (by decide) (by decide) lateNameBlock [97]).inside ⟨4088, .name, 4096⟩
  have visit : (extDirFindScan [97]).visited 4096 lateNameBlock 0 1 = some 4088 := by decide
  have touched : (⟨4088, .name, 4096⟩ : DirAccess) ∈ nameEqualsBytes [97] lateNameBlock 4088 := by
    decide
  have := inside ⟨1, 4088, visit, .inr ⟨by decide, touched⟩⟩
  exact absurd this (by decide)

/-- An empty block. -/
theorem dir_accesses_inside_empty :
    (extDirFindRoutine [97]).StaysInside 1024 4096 (fun _ => 0) ↔
      (extDirFindRoutine [97]).Spares 1024 (fun _ => 0) fun _ o =>
        comparesName [97] (fun _ => 0) o :=
  (dir_accesses_inside_iff (by decide) (by decide) fun _ => 0).1 [97]

end NTux.Ext
