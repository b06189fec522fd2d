import NTux.Fs.FsCalls
import NTux.Fs.RamfsPerm
import NTux.Lib.Bytes
import NTux.Lib.Runs

/-!
# The persistence of the RAM filesystem

`fs_persist_save_ramfs` writes the nodes of the RAM filesystem to the last sectors of the
first drive: a header, then one entry per node from the front of the region, and the
contents from its back.  `fs_persist_load_ramfs` makes the nodes again from there.

Both ask `g_fs_persist_enabled` first, which `fs_init` clears and nothing sets.
-/

namespace NTux.Fs

open NTux.Lib NTux.Lib.Bytes

/-! ## Paths of nodes -/

/-- The loop of `fs_build_ramfs_path` that climbs to the root: the nodes from the root's
child down. -/
def ramfsChain (fs : Ramfs) : Nat → Nat → List Nat → Option (List Nat)
  | 0, _, chain => some chain
  | fuel + 1, cur, chain =>
      if cur = fs.rootIndex then some chain
      else
        let parent := (fs.nodes cur).parent
        if ramfsMaxNodes ≤ parent ∨ (fs.nodes parent).used = false then none
        else ramfsChain fs fuel parent (cur :: chain)

/-- The loop that writes the names behind `out`; a slash stands before each name. -/
def ramfsChainPath : CString → List CString → Option CString
  | out, [] => some out
  | out, n :: rest =>
      if n = [] ∨ vfsMaxPath ≤ (out ++ [slash]).length + n.length + 1 then none
      else ramfsChainPath (out ++ [slash] ++ n) rest

/-- `fs_build_ramfs_path`. -/
def fsBuildRamfsPath (fs : Ramfs) (node : Nat) : Option CString :=
  if ramfsMaxNodes ≤ node ∨ (fs.nodes node).used = false then none
  else if node = fs.rootIndex then some [slash]
  else
    match ramfsChain fs ramfsMaxNodes node [] with
    | none | some [] => none
    | some chain => ramfsChainPath [] (chain.map fun i => (fs.nodes i).name)

/-! ## The save -/

/-- The size of the region in bytes: `FS_PERSIST_SECTORS` sectors. -/
def persistMax : Nat := 2048 * 512

/-- The size of `fs_persist_header_t`. -/
def persistHeaderSize : Nat := 28

/-- The size of `fs_persist_entry_t`. -/
def persistEntrySize : Nat := 16

/-- What is kept of a node: its type, its path, and its content. -/
structure PersistEntry where
  type : UInt8
  path : CString
  data : List UInt8
  deriving DecidableEq

/-- The bytes an entry and its path take at the front. -/
def PersistEntry.front (ent : PersistEntry) : Nat := persistEntrySize + (ent.path.length + 1)

/-- The variables of the save's loop. -/
structure PersistWriter where
  blob : Bytes
  wr : Nat
  dataOff : Nat
  count : Nat

/-- Bytes copied into the blob. -/
def copyIn (p : Bytes) (o : Nat) (s : List UInt8) : Bytes :=
  splice p o s.length fun i => s.getD i 0

/-- The body of the loop for an entry that has room. -/
def PersistWriter.put (w : PersistWriter) (ent : PersistEntry) : PersistWriter :=
  let off := w.dataOff - ent.data.length
  let withData := copyIn w.blob off ent.data
  let withType := wr32 withData w.wr ent.type.toNat
  let withPathLen := wr32 withType (w.wr + 4) (ent.path.length + 1)
  let withDataLen := wr32 withPathLen (w.wr + 8) ent.data.length
  let withEntry := wr32 withDataLen (w.wr + 12) off
  { blob := copyIn withEntry (w.wr + persistEntrySize) (ent.path ++ [0])
    wr := w.wr + ent.front
    dataOff := off
    count := w.count + 1 }

/-- What the loop makes of a node: `none` where it goes on to the next one. -/
def persistEntryOf (fs : Ramfs) (node : Nat) : Option PersistEntry :=
  let n := fs.nodes node
  if n.used = false ∨ node = fs.rootIndex then none
  else (fsBuildRamfsPath fs node).map fun path =>
    if n.type = .dir then ⟨1, path, []⟩ else ⟨2, path, ramfsContent fs n⟩

/-- The loop of `fs_persist_save_ramfs`: content that is longer than what is left is passed
over, and the first entry that does not fit ends the loop. -/
def persistSaveLoop : PersistWriter → List PersistEntry → PersistWriter
  | w, [] => w
  | w, ent :: rest =>
      if w.dataOff < ent.data.length then persistSaveLoop w rest
      else if w.dataOff - ent.data.length < w.wr + ent.front then w
      else persistSaveLoop (w.put ent) rest

/-- The header, written last. -/
def persistHeader (w : PersistWriter) : Bytes :=
  let magicLow := wr32 w.blob 0 0x5855544E
  let magic := wr32 magicLow 4 0x31534650
  let version := wr32 magic 8 1
  let entryCount := wr32 version 12 w.count
  let dataBytes := wr32 entryCount 16 (persistMax - w.dataOff)
  wr32 dataBytes 20 persistMax

/-- The writer the loop starts with. -/
def persistStart : PersistWriter := ⟨fun _ => 0, persistHeaderSize, persistMax, 0⟩

/-- The entries of a filesystem, in the order of the nodes. -/
def persistEntriesOf (fs : Ramfs) : List PersistEntry :=
  (List.range ramfsMaxNodes).filterMap (persistEntryOf fs)

/-- The region `fs_persist_save_ramfs` writes. -/
def persistBlob (fs : Ramfs) : Bytes :=
  persistHeader (persistSaveLoop persistStart (persistEntriesOf fs))

/-! ## The load -/

/-- An entry as the load reads it; no content where it would lie outside the region. -/
structure PersistRecord where
  type : UInt8
  path : CString
  data : Option (List UInt8)
  deriving DecidableEq

/-- The reading of the entries: `entry_count` of them, or up to the first that is not one. -/
def persistRead (blob : Bytes) : Nat → Nat → List PersistRecord
  | 0, _ => []
  | count + 1, rd =>
      if persistMax < rd + persistEntrySize then []
      else
        let pathLen := rd32 blob (rd + 4)
        let dataLen := rd32 blob (rd + 8)
        let dataOff := rd32 blob (rd + 12)
        let rdPath := rd + persistEntrySize
        if pathLen = 0 ∨ vfsMaxPath ≤ pathLen ∨ persistMax < rdPath + pathLen then []
        else
          { type := blob rd
            path := (slice blob rdPath (pathLen - 1)).takeWhile (· ≠ 0)
            data := if persistMax < dataOff + dataLen then none
              else some (slice blob dataOff dataLen) }
          :: persistRead blob count (rdPath + pathLen)

/-- The records of a region whose header is right. -/
def persistRecords (blob : Bytes) : List PersistRecord :=
  if rd32 blob 0 ≠ 0x5855544E ∨ rd32 blob 4 ≠ 0x31534650 ∨ rd32 blob 8 ≠ 1 ∨
      ramfsMaxNodes < rd32 blob 12 then []
  else persistRead blob (rd32 blob 12) persistHeaderSize

/-- The tokens of `fs_persist_ensure_dirs`: what is too long for a name goes on as the next
token. -/
def persistTokens : Nat → CString → List CString
  | 0, _ => []
  | fuel + 1, p =>
      match p.dropWhile (· == slash) with
      | [] => []
      | s =>
          let token := (s.takeWhile (· != slash)).take (vfsMaxName - 1)
          token :: persistTokens fuel (s.drop token.length)

/-- `fs_mkdir` on the RAM filesystem, its code ignored. -/
def persistMkdir (who : Identity) (fs : Ramfs) (path name : CString) : Ramfs :=
  (fsMkdir who (vfsOver who fs) path name).2.store

/-- The loop of `fs_persist_ensure_dirs`. -/
def persistEnsureLoop (who : Identity) : Ramfs → CString → List CString → Ramfs
  | fs, _, [] => fs
  | fs, built, token :: rest =>
      let built := if built = [slash] then built ++ token else built ++ [slash] ++ token
      match fsSplitPath built with
      | none => persistEnsureLoop who fs built rest
      | some (parent, name) => persistEnsureLoop who (persistMkdir who fs parent name) built rest

/-- `fs_persist_ensure_dirs`. -/
def fsPersistEnsureDirs (who : Identity) (fs : Ramfs) (dirPath : CString) : Ramfs :=
  if dirPath.head? ≠ some slash ∨ dirPath.length = 1 then fs
  else
    let tmp := dirPath.take (vfsMaxPath - 1)
    persistEnsureLoop who fs [slash] (persistTokens tmp.length tmp)

/-- What the load does with a record. -/
def persistMake (who : Identity) (fs : Ramfs) (rec : PersistRecord) : Ramfs :=
  match fsSplitPath rec.path with
  | none => fs
  | some (parent, name) =>
      let fs := fsPersistEnsureDirs who fs parent
      if rec.type = 1 then persistMkdir who fs parent name
      else if rec.type = 2 then
        match rec.data with
        | none => fs
        | some data => (fsCreateFile who (vfsOver who fs) parent name data).2.store
      else fs

/-! ## The switch -/

/-- The first drive: whether it is there, whether it is a disk and not a packet device, and
its sectors; and the driver on the sectors from a given one on. -/
structure PersistDrive (δ : Type) where
  count : δ → Nat
  present : δ → Bool
  isAtapi : δ → Bool
  sectors : δ → Nat
  write : δ → Nat → Bytes → δ
  read : δ → Nat → Option Bytes

variable {δ : Type}

/-- `fs_persist_region`: the first sector of the region. -/
def fsPersistRegion (drive : PersistDrive δ) (disk : δ) : Option Nat :=
  if drive.present disk = false ∨ drive.isAtapi disk = true ∨
      drive.sectors disk ≤ 2048 + 4096 then none
  else some (drive.sectors disk - 2048)

/-- The filesystem, `g_fs_persist_enabled`, `g_fs_persist_busy`, and the drives. -/
structure PersistState (δ : Type) where
  fs : Ramfs
  enabled : Bool
  busy : Bool
  disk : δ

/-- `fs_init`: the filesystem is fresh and the persistence off. -/
def fsInit (disk : δ) : PersistState δ := ⟨ramfsInit, false, false, disk⟩

/-- `fs_persist_save_ramfs`. -/
def fsPersistSaveRamfs (drive : PersistDrive δ) (s : PersistState δ) : PersistState δ :=
  if s.enabled = false ∨ s.busy = true ∨ drive.count s.disk = 0 then s
  else
    match fsPersistRegion drive s.disk with
    | none => s
    | some lba => { s with disk := drive.write s.disk lba (persistBlob s.fs) }

/-- `fs_persist_load_ramfs`.  While it runs it is busy, so that what it makes is not saved. -/
def fsPersistLoadRamfs (drive : PersistDrive δ) (who : Identity) (s : PersistState δ) :
    PersistState δ :=
  if s.enabled = false ∨ s.busy = true ∨ drive.count s.disk = 0 then s
  else
    match (fsPersistRegion drive s.disk).bind (drive.read s.disk) with
    | none => s
    | some blob => { s with fs := (persistRecords blob).foldl (persistMake who) s.fs }

/-- `fs_should_persist_path`. -/
def fsShouldPersistPath (s : PersistState δ) (who : Identity) (path : CString) : Bool :=
  s.enabled && !s.busy &&
    (vfsFindMount (vfsOver who s.fs).mounts path).any fun m => m.1.kind = .ramfs

/-- The path after which a call that succeeded asks whether to save. -/
def PathCall.saved : PathCall → Option CString
  | .mkdir path _ | .createFile path _ _ | .writeFile path _ | .remove path => some path
  | .rename oldPath _ => some oldPath
  | .readFile _ _ | .chmod _ _ | .chown _ _ _ => none

/-- A call on a path, and the save after it. -/
def savedCall (drive : PersistDrive δ) (s : PersistState δ) (who : Identity) (call : PathCall) :
    PersistState δ :=
  let done := pathCall who s.fs call
  let s := { s with fs := done.2 }
  if done.1 = 0 ∧ call.saved.any (fsShouldPersistPath s who) then fsPersistSaveRamfs drive s else s

/-- What the kernel does with the RAM filesystem. -/
inductive PersistAction
  | call (who : Identity) (call : PathCall)
  | save
  | load (who : Identity)

/-- One action. -/
def persistStep (drive : PersistDrive δ) (s : PersistState δ) : PersistAction → PersistState δ
  | .call who call => savedCall drive s who call
  | .save => fsPersistSaveRamfs drive s
  | .load who => fsPersistLoadRamfs drive who s

/-! ## What the save writes and the load reads -/

/-- The record an entry is read as: its path up to a zero byte, which no string of C has
before its end. -/
def PersistEntry.record (ent : PersistEntry) : PersistRecord :=
  ⟨ent.type, ent.path.takeWhile (· ≠ 0), some ent.data⟩

/-- The entries that find room between the front and the back. -/
def persistStored : Nat → Nat → List PersistEntry → List PersistEntry
  | _, _, [] => []
  | wr, dataOff, ent :: rest =>
      if dataOff < ent.data.length then persistStored wr dataOff rest
      else if dataOff - ent.data.length < wr + ent.front then []
      else ent :: persistStored (wr + ent.front) (dataOff - ent.data.length) rest

/-- What the entries take. -/
def persistNeed (ents : List PersistEntry) : Nat :=
  (ents.map fun ent => ent.front + ent.data.length).sum

/-- The load's buffer takes the path. -/
def PersistEntry.Storable (ent : PersistEntry) : Prop := ent.path.length + 1 < vfsMaxPath

theorem persistStored_sublist (wr dataOff : Nat) (ents : List PersistEntry) :
    (persistStored wr dataOff ents).Sublist ents := by
  induction ents generalizing wr dataOff with
  | nil => exact List.Sublist.refl []
  | cons ent rest ih =>
      rw [persistStored]
      split
      · exact (ih wr dataOff).cons ent
      · split
        · exact List.nil_sublist _
        · exact (ih _ _).cons_cons ent

/-- Where there is room for all, all are stored. -/
theorem persistStored_of_fits {wr dataOff : Nat} {ents : List PersistEntry}
    (fits : wr + persistNeed ents ≤ dataOff) : persistStored wr dataOff ents = ents := by
  induction ents generalizing wr dataOff with
  | nil => rfl
  | cons ent rest ih =>
      have need : persistNeed (ent :: rest) = ent.front + ent.data.length + persistNeed rest := by
        simp [persistNeed]
      rw [need] at fits
      rw [persistStored, if_neg (by omega), if_neg (by omega), ih (by omega)]

section Blob

variable {p q : Bytes} {ent : PersistEntry} {ents : List PersistEntry} {w : PersistWriter}

theorem copyIn_of_apart {o i : Nat} {s : List UInt8} (apart : i < o ∨ o + s.length ≤ i) :
    copyIn p o s i = p i := splice_of_apart apart

theorem slice_copyIn (p : Bytes) (o : Nat) (s : List UInt8) :
    slice (copyIn p o s) o s.length = s :=
  slice_eq_list fun _ lt => splice_of_mem lt

/-- An entry in a region: its fields and its path at `rd`, its content from `lo` on. -/
structure Written (p : Bytes) (lo rd : Nat) (ent : PersistEntry) : Prop where
  type : p rd = ent.type
  pathLen : rd32 p (rd + 4) = ent.path.length + 1
  dataLen : rd32 p (rd + 8) = ent.data.length
  path : slice p (rd + persistEntrySize) ent.path.length = ent.path
  behind : lo ≤ rd32 p (rd + 12)
  inside : rd32 p (rd + 12) + ent.data.length ≤ persistMax
  data : slice p (rd32 p (rd + 12)) ent.data.length = ent.data

/-- Entries one behind the other, from `rd` to `stop`. -/
def Holds (p : Bytes) (lo : Nat) : Nat → Nat → List PersistEntry → Prop
  | rd, stop, [] => rd = stop
  | rd, stop, ent :: rest => Written p lo rd ent ∧ Holds p lo (rd + ent.front) stop rest

theorem Holds.le {lo rd stop : Nat} (holds : Holds p lo rd stop ents) : rd ≤ stop := by
  induction ents generalizing rd with
  | nil => exact Nat.le_of_eq holds
  | cons ent rest ih => exact Nat.le_trans (Nat.le_add_right _ _) (ih holds.2)

/-- An entry is read from its own bytes and its content only. -/
theorem Written.congr {lo lo' rd : Nat} (written : Written p lo rd ent) (le : lo' ≤ lo)
    (front : ∀ i, rd ≤ i → i < rd + ent.front → q i = p i)
    (back : ∀ i, lo ≤ i → i < persistMax → q i = p i) : Written q lo' rd ent := by
  have size : ent.front = 16 + (ent.path.length + 1) := rfl
  have word : ∀ k, k + 4 ≤ 16 → rd32 q (rd + k) = rd32 p (rd + k) := fun k le =>
    rd32_congr fun i lt => front _ (by omega) (by omega)
  have off : rd32 q (rd + 12) = rd32 p (rd + 12) := word 12 (by omega)
  refine ⟨?_, ?_, ?_, ?_, ?_, ?_, ?_⟩
  · rw [front rd (by omega) (by omega), written.type]
  · rw [word 4 (by omega), written.pathLen]
  · rw [word 8 (by omega), written.dataLen]
  · have same : slice q (rd + persistEntrySize) ent.path.length =
        slice p (rd + persistEntrySize) ent.path.length := by
      apply slice_congr
      intro i lt
      exact front _ (by omega) (by unfold persistEntrySize; omega)
    rw [same, written.path]
  · rw [off]
    exact Nat.le_trans le written.behind
  · rw [off]
    exact written.inside
  · have inside := written.inside
    have same : slice q (rd32 p (rd + 12)) ent.data.length =
        slice p (rd32 p (rd + 12)) ent.data.length := by
      apply slice_congr
      intro i lt
      exact back _ (Nat.le_trans written.behind (Nat.le_add_right _ _)) (by omega)
    rw [off, same, written.data]

theorem Holds.congr {lo lo' rd stop : Nat} (holds : Holds p lo rd stop ents) (le : lo' ≤ lo)
    (front : ∀ i, rd ≤ i → i < stop → q i = p i)
    (back : ∀ i, lo ≤ i → i < persistMax → q i = p i) : Holds q lo' rd stop ents := by
  induction ents generalizing rd with
  | nil => exact holds
  | cons ent rest ih =>
      have next : rd + ent.front ≤ stop := Holds.le holds.2
      refine ⟨holds.1.congr le (fun i ge lt => front i ge (by omega)) back, ?_⟩
      exact ih holds.2 fun i ge lt => front i (by omega) lt

theorem Holds.concat {lo rd stop : Nat} (holds : Holds p lo rd stop ents)
    (written : Written p lo stop ent) : Holds p lo rd (stop + ent.front) (ents ++ [ent]) := by
  induction ents generalizing rd with
  | nil =>
      obtain rfl : rd = stop := holds
      exact ⟨written, rfl⟩
  | cons head rest ih => exact ⟨holds.1, ih holds.2⟩

/-! ### The step of the save -/

/-- A new entry leaves what is in front of it and behind its content. -/
theorem put_of_apart {i : Nat} (lens : ent.data.length ≤ w.dataOff)
    (room : w.wr + ent.front ≤ w.dataOff - ent.data.length) (apart : i < w.wr ∨ w.dataOff ≤ i) :
    (w.put ent).blob i = w.blob i := by
  have size : ent.front = 16 + (ent.path.length + 1) := rfl
  have pathSize : (ent.path ++ [0]).length = ent.path.length + 1 := by simp
  show copyIn _ _ _ i = _
  rw [copyIn_of_apart (by rw [pathSize]; unfold persistEntrySize; omega),
    wr32_of_apart (by omega), wr32_of_apart (by omega), wr32_of_apart (by omega),
    wr32_of_apart (by omega), copyIn_of_apart (by omega)]

theorem put_written (storable : ent.Storable) (lens : ent.data.length ≤ w.dataOff)
    (room : w.wr + ent.front ≤ w.dataOff - ent.data.length) (le : w.dataOff ≤ persistMax) :
    Written (w.put ent).blob (w.put ent).dataOff w.wr ent := by
  have size : ent.front = 16 + (ent.path.length + 1) := rfl
  have pathSize : (ent.path ++ [0]).length = ent.path.length + 1 := by simp
  have max : persistMax = 1048576 := rfl
  have shortNat : ent.path.length + 1 < 256 := storable
  -- the path is written last, behind the fields
  have fields : ∀ k, k + 4 ≤ 16 → ∀ p : Bytes,
      rd32 (copyIn p (w.wr + persistEntrySize) (ent.path ++ [0])) (w.wr + k) = rd32 p (w.wr + k) :=
    fun k small p => rd32_congr fun i lt => copyIn_of_apart (by unfold persistEntrySize; omega)
  have off : rd32 (w.put ent).blob (w.wr + 12) = w.dataOff - ent.data.length := by
    show rd32 (copyIn _ _ _) _ = _
    rw [fields 12 (by omega), rd32_wr32 (by omega)]
  refine ⟨?_, ?_, ?_, ?_, ?_, ?_, ?_⟩
  · show copyIn _ _ _ w.wr = _
    rw [copyIn_of_apart (by unfold persistEntrySize; omega), wr32_of_apart (by omega),
      wr32_of_apart (by omega), wr32_of_apart (by omega)]
    unfold wr32
    rw [if_pos rfl, UInt8.ofNat_toNat]
  · show rd32 (copyIn _ _ _) _ = _
    rw [fields 4 (by omega), rd32_wr32_of_apart (by omega), rd32_wr32_of_apart (by omega),
      rd32_wr32 (by omega)]
  · show rd32 (copyIn _ _ _) _ = _
    rw [fields 8 (by omega), rd32_wr32_of_apart (by omega), rd32_wr32 (by omega)]
  · have whole := slice_copyIn (wr32 (wr32 (wr32 (wr32 (copyIn w.blob
      (w.dataOff - ent.data.length) ent.data) w.wr ent.type.toNat) (w.wr + 4)
      (ent.path.length + 1)) (w.wr + 8) ent.data.length) (w.wr + 12)
      (w.dataOff - ent.data.length)) (w.wr + persistEntrySize) (ent.path ++ [0])
    rw [pathSize, slice_add] at whole
    exact (List.append_inj whole slice_length).1
  · rw [off]
    exact Nat.le_refl _
  · rw [off]
    omega
  · rw [off]
    have same : slice (w.put ent).blob (w.dataOff - ent.data.length) ent.data.length =
        slice (copyIn w.blob (w.dataOff - ent.data.length) ent.data)
          (w.dataOff - ent.data.length) ent.data.length := by
      apply slice_congr
      intro i lt
      show copyIn _ _ _ _ = _
      rw [copyIn_of_apart (by rw [pathSize]; unfold persistEntrySize; omega),
        wr32_of_apart (by omega), wr32_of_apart (by omega), wr32_of_apart (by omega),
        wr32_of_apart (by omega)]
    rw [same, slice_copyIn]

/-- The loop's invariant: the entries stored so far are in the blob, and the front has not
met the back. -/
structure WriterOk (w : PersistWriter) (ents : List PersistEntry) : Prop where
  holds : Holds w.blob w.dataOff persistHeaderSize w.wr ents
  front : w.wr ≤ w.dataOff
  back : w.dataOff ≤ persistMax
  count : w.count = ents.length

theorem WriterOk.put (ok : WriterOk w ents) (storable : ent.Storable)
    (lens : ent.data.length ≤ w.dataOff)
    (room : w.wr + ent.front ≤ w.dataOff - ent.data.length) :
    WriterOk (w.put ent) (ents ++ [ent]) := by
  have old : Holds (w.put ent).blob (w.put ent).dataOff persistHeaderSize w.wr ents := by
    apply ok.holds.congr (Nat.sub_le _ _)
    · exact fun i _ lt => put_of_apart lens room (.inl lt)
    · exact fun i ge _ => put_of_apart lens room (.inr ge)
  refine ⟨old.concat (put_written storable lens room ok.back), room, ?_, ?_⟩
  · exact Nat.le_trans (Nat.sub_le _ _) ok.back
  · show w.count + 1 = _
    rw [ok.count, List.length_append, List.length_singleton]

theorem persistSaveLoop_ok {rest : List PersistEntry} (ok : WriterOk w ents)
    (storable : ∀ ent ∈ rest, ent.Storable) :
    WriterOk (persistSaveLoop w rest) (ents ++ persistStored w.wr w.dataOff rest) := by
  induction rest generalizing w ents with
  | nil =>
      rw [persistStored, List.append_nil]
      exact ok
  | cons ent rest ih =>
      have later : ∀ ent ∈ rest, ent.Storable := fun e mem => storable e (List.mem_cons_of_mem _ mem)
      rw [persistSaveLoop, persistStored]
      split
      · exact ih ok later
      · split
        · rw [List.append_nil]
          exact ok
        · have next := ih (ok.put (storable ent List.mem_cons_self) (by omega) (by omega)) later
          rw [List.append_assoc] at next
          exact next

/-! ### The step of the load -/

theorem persistRead_holds {lo rd stop : Nat} (holds : Holds p lo rd stop ents)
    (inside : stop ≤ persistMax) (storable : ∀ ent ∈ ents, ent.Storable) :
    persistRead p ents.length rd = ents.map PersistEntry.record := by
  induction ents generalizing rd with
  | nil => rfl
  | cons ent rest ih =>
      obtain ⟨written, next⟩ := holds
      have short : ent.path.length + 1 < vfsMaxPath := storable ent List.mem_cons_self
      have size : ent.front = persistEntrySize + (ent.path.length + 1) := rfl
      have before : rd + ent.front ≤ stop := Holds.le next
      rw [List.length_cons, persistRead, if_neg (by omega)]
      simp only [written.pathLen, written.dataLen]
      rw [if_neg (by omega), if_neg (by have := written.inside; omega), Nat.add_sub_cancel,
        written.path, written.type, written.data, List.map_cons,
        show rd + persistEntrySize + (ent.path.length + 1) = rd + ent.front by omega,
        ih next fun e mem => storable e (List.mem_cons_of_mem _ mem)]
      rfl

/-! ### The header -/

theorem persistHeader_of_behind {i : Nat} (behind : persistHeaderSize ≤ i) :
    persistHeader w i = w.blob i := by
  have size : persistHeaderSize = 28 := rfl
  unfold persistHeader
  rw [wr32_of_apart (by omega), wr32_of_apart (by omega), wr32_of_apart (by omega),
    wr32_of_apart (by omega), wr32_of_apart (by omega), wr32_of_apart (by omega)]

/-- The load finds the header right, and reads as many entries as were counted. -/
theorem persistRecords_header (few : w.count ≤ ramfsMaxNodes) :
    persistRecords (persistHeader w) = persistRead (persistHeader w) w.count persistHeaderSize := by
  have nodes : ramfsMaxNodes = 1024 := rfl
  have magicLow : rd32 (persistHeader w) 0 = 0x5855544E := by
    unfold persistHeader
    rw [rd32_wr32_of_apart (by omega), rd32_wr32_of_apart (by omega), rd32_wr32_of_apart (by omega),
      rd32_wr32_of_apart (by omega), rd32_wr32_of_apart (by omega), rd32_wr32 (by omega)]
  have magicHigh : rd32 (persistHeader w) 4 = 0x31534650 := by
    unfold persistHeader
    rw [rd32_wr32_of_apart (by omega), rd32_wr32_of_apart (by omega), rd32_wr32_of_apart (by omega),
      rd32_wr32_of_apart (by omega), rd32_wr32 (by omega)]
  have version : rd32 (persistHeader w) 8 = 1 := by
    unfold persistHeader
    rw [rd32_wr32_of_apart (by omega), rd32_wr32_of_apart (by omega), rd32_wr32_of_apart (by omega),
      rd32_wr32 (by omega)]
  have count : rd32 (persistHeader w) 12 = w.count := by
    unfold persistHeader
    rw [rd32_wr32_of_apart (by omega), rd32_wr32_of_apart (by omega), rd32_wr32 (by omega)]
  rw [persistRecords, magicLow, magicHigh, version, count, if_neg (by omega)]

/-- What the load reads is what the save stored, in its order, whole. -/
theorem persistRecords_saved {all : List PersistEntry} (few : all.length ≤ ramfsMaxNodes)
    (storable : ∀ ent ∈ all, ent.Storable) :
    persistRecords (persistHeader (persistSaveLoop persistStart all)) =
      (persistStored persistHeaderSize persistMax all).map PersistEntry.record := by
  have start : WriterOk persistStart [] :=
    ⟨rfl, (by decide : persistHeaderSize ≤ persistMax), Nat.le_refl _, rfl⟩
  have ok := persistSaveLoop_ok start storable
  rw [List.nil_append] at ok
  have part : (persistStored persistHeaderSize persistMax all).Sublist all :=
    persistStored_sublist _ _ _
  have holds : Holds (persistHeader (persistSaveLoop persistStart all))
      (persistSaveLoop persistStart all).dataOff persistHeaderSize
      (persistSaveLoop persistStart all).wr (persistStored persistHeaderSize persistMax all) := by
    apply ok.holds.congr (Nat.le_refl _)
    · exact fun i ge _ => persistHeader_of_behind ge
    · exact fun i ge _ =>
        persistHeader_of_behind (Nat.le_trans (Nat.le_trans ok.holds.le ok.front) ge)
  rw [persistRecords_header (ok.count ▸ Nat.le_trans part.length_le few), ok.count]
  exact persistRead_holds holds (Nat.le_trans ok.front ok.back)
    fun ent mem => storable ent (part.subset mem)

end Blob

/-! ### The entries of a filesystem -/

theorem ramfsChainPath_storable {out path : CString} {names : List CString}
    (short : out.length + 1 < vfsMaxPath) (done : ramfsChainPath out names = some path) :
    path.length + 1 < vfsMaxPath := by
  induction names generalizing out with
  | nil =>
      obtain rfl : out = path := Option.some.inj done
      exact short
  | cons n rest ih =>
      rw [ramfsChainPath] at done
      split at done
      · cases done
      · apply ih _ done
        rw [List.length_append]
        omega

theorem fsBuildRamfsPath_storable {fs : Ramfs} {node : Nat} {path : CString}
    (done : fsBuildRamfsPath fs node = some path) : path.length + 1 < vfsMaxPath := by
  unfold fsBuildRamfsPath at done
  split at done
  · cases done
  · split at done
    · obtain rfl := Option.some.inj done
      decide
    · split at done
      · cases done
      · cases done
      · exact ramfsChainPath_storable (by decide) done

theorem persistEntriesOf_storable (fs : Ramfs) : ∀ ent ∈ persistEntriesOf fs, ent.Storable := by
  intro ent mem
  obtain ⟨node, _, made⟩ := List.mem_filterMap.1 mem
  simp only [persistEntryOf] at made
  split at made
  · cases made
  · obtain ⟨path, built, same⟩ := Option.map_eq_some_iff.1 made
    have short := fsBuildRamfsPath_storable built
    split at same
    · exact same ▸ short
    · exact same ▸ short

/-- The region saved for a filesystem is read as the entries that found room. -/
theorem persistRecords_blob (fs : Ramfs) :
    persistRecords (persistBlob fs) =
      (persistStored persistHeaderSize persistMax (persistEntriesOf fs)).map
        PersistEntry.record := by
  apply persistRecords_saved _ (persistEntriesOf_storable fs)
  have few := List.length_filterMap_le (persistEntryOf fs) (List.range ramfsMaxNodes)
  rwa [List.length_range] at few

/-! ## The switch stays off -/

section Off

variable {drive : PersistDrive δ} {s : PersistState δ}

theorem fsPersistSaveRamfs_off (off : s.enabled = false) : fsPersistSaveRamfs drive s = s :=
  if_pos (.inl off)

theorem fsPersistLoadRamfs_off (who : Identity) (off : s.enabled = false) :
    fsPersistLoadRamfs drive who s = s := if_pos (.inl off)

/-- A call asks the switch before it saves. -/
theorem savedCall_off (who : Identity) (call : PathCall) (off : s.enabled = false) :
    savedCall drive s who call = { s with fs := (pathCall who s.fs call).2 } := by
  have never : call.saved.any
      (fsShouldPersistPath { s with fs := (pathCall who s.fs call).2 } who) = false := by
    cases call.saved with
    | none => rfl
    | some path => simp [fsShouldPersistPath, off]
  rw [savedCall, if_neg]
  rw [never]
  exact fun done => Bool.noConfusion done.2

/-- The switch is off and the drives are as they were. -/
def SwitchedOff (disk : δ) (s : PersistState δ) : Prop := s.enabled = false ∧ s.disk = disk

theorem persistStep_off {disk : δ} (s : PersistState δ) (a : PersistAction)
    (off : SwitchedOff disk s) : SwitchedOff disk (persistStep drive s a) := by
  cases a with
  | call who call =>
      show SwitchedOff disk (savedCall drive s who call)
      rw [savedCall_off who call off.1]
      exact off
  | save =>
      show SwitchedOff disk (fsPersistSaveRamfs drive s)
      rwa [fsPersistSaveRamfs_off off.1]
  | load who =>
      show SwitchedOff disk (fsPersistLoadRamfs drive who s)
      rwa [fsPersistLoadRamfs_off who off.1]

end Off

/-! ## Save and load -/

/-- What a path leads to: the type, and the content of a file. -/
def treeAt (fs : Ramfs) (path : CString) : Option (RamfsNodeType × List UInt8) :=
  match (ramfsResolve fs path false).node with
  | .error _ => none
  | .ok node =>
      let n := fs.nodes node
      some (n.type, if n.type = .file then ramfsContent fs n else [])

/-- The same paths below the root, with the same types and contents. -/
def SameTree (a b : Ramfs) : Prop :=
  ∀ path, ramfsPathTokens path ≠ [] → treeAt a path = treeAt b path

/-- No path besides the root. -/
def Bare (fs : Ramfs) : Prop := ∀ path, ramfsPathTokens path ≠ [] → treeAt fs path = none

theorem ramfsInit_bare : Bare ramfsInit := by
  intro path below
  have missing : ∀ tok, ramfsFindChild ramfsInit 0 tok = none := fun _ => rfl
  have nowhere : ∃ e, (ramfsResolve ramfsInit path false).node = .error e := by
    unfold ramfsResolve
    split
    · exact ⟨_, rfl⟩
    · split
      · contradiction
      · rename_i tok rest _
        show ∃ e, (ramfsResolveLoop false ramfsInit 0 tok rest).node = .error e
        cases rest with
        | nil => exact ⟨-2, by rw [ramfsResolveLoop]; simp only [missing]⟩
        | cons next rest =>
            refine ⟨-3, ?_⟩
            rw [ramfsResolveLoop]
            simp only [missing]
            rfl
  obtain ⟨e, failed⟩ := nowhere
  rw [treeAt, failed]

/-- A drive whose region holds what was written there last. -/
def oneRegion : PersistDrive Bytes where
  count := fun _ => 1
  present := fun _ => true
  isAtapi := fun _ => false
  sectors := fun _ => 8192
  write := fun _ _ blob => blob
  read := fun region _ => some region

/-- Root makes `/a`. -/
def makeOneDir : List PersistAction := [.call ⟨0, 0⟩ (.mkdir [slash, 97] 0)]

end NTux.Fs
