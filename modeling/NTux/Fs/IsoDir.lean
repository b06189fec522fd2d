import NTux.Elf.Asm
import NTux.Fs.IsoRead
import NTux.Fs.PathComponents

/-!
# Directories of an ISO volume

`iso_scan_dir` hands the records of a directory to `iso_find_cb`, which looks for a name, or to
`iso_list_cb`, which reports all of them.  A record begins with its length; the length of the
name is another byte of it, which `iso_decode_record_name` does not compare with the first.

* `isoScanDir_spec` — the scan ends, and hands out the same records whatever is done with them,
  each inside its sector.
* `DirFaithful` — names are decoded from the bytes of their records, and what is listed is found.
* `iso_dir_iff` — it holds exactly where no name runs out of its record, and no listed name is
  empty or has a slash.
-/

namespace NTux.Fs

open NTux.Lib NTux.Lib.Bytes NTux.Ext
open NTux.Elf.Asm (lower)

/-! ## Names -/

/-- What names of entries are followed by. -/
def isoDot : UInt8 := 46

/-- Stops a name. -/
def semicolon : UInt8 := 59

/-- `iso_name_eq_ci`. -/
def isoNameEqCi : CString → CString → Bool
  | c :: a, d :: b => if lower c ≠ lower d then false else isoNameEqCi a b
  | [], [] => true
  | _, _ => false

/-- The character that is made of the `j`-th unit of a name, a byte or two; there is none if the
unit stops the name. -/
def isoUnit (joliet : Bool) (rec : Bytes) (j : Nat) : Option UInt8 :=
  if joliet then
    let hi := rec (33 + 2 * j)
    let lo := rec (33 + (2 * j + 1))
    if lo = semicolon ∨ hi = semicolon then none
    else some (if hi = 0 then lo else if lo = 0 then hi else 63)
  else if rec (33 + j) = semicolon then none else some (rec (33 + j))

/-- The bytes of a unit. -/
def isoWidth (joliet : Bool) : Nat := if joliet then 2 else 1

/-- The loops of `iso_decode_record_name`: the characters, and how many units were looked at. -/
def isoIdLoop (unit : Nat → Option UInt8) (units : Nat) : Nat → Nat → List UInt8 → List UInt8 × Nat
  | 0, j, out => (out, j)
  | fuel + 1, j, out =>
      if j < units ∧ out.length + 1 < vfsMaxName then
        match unit j with
        | none => (out, j + 1)
        | some c => isoIdLoop unit units fuel (j + 1) (out ++ [c])
      else (out, j)

/-- The units that the length of the name stands for. -/
def isoUnits (joliet : Bool) (rec : Bytes) : Nat := (rec 32).toNat / isoWidth joliet

/-- The characters of a name, and how many units of it were looked at. -/
def isoId (joliet : Bool) (rec : Bytes) : List UInt8 × Nat :=
  isoIdLoop (isoUnit joliet rec) (isoUnits joliet rec) (isoUnits joliet rec) 0 []

/-- `iso_decode_record_name`: the string, if there is one. -/
def isoDecodeRecordName (joliet : Bool) (rec : Bytes) : Option CString :=
  if rec 32 = 1 ∧ rec 33 = 0 then some [isoDot]
  else if rec 32 = 1 ∧ rec 33 = 1 then some [isoDot, isoDot]
  else
    let out := (isoId joliet rec).1.rdropWhile (· == isoDot)
    if out = [] then none else some (out.takeWhile (· != 0))

/-- The bytes of a record up to the last that `iso_decode_record_name` reads. -/
def isoDecodeReads (joliet : Bool) (rec : Bytes) : Nat :=
  if rec 32 = 1 ∧ (rec 33 = 0 ∨ rec 33 = 1) then 34
  else 33 + isoWidth joliet * (isoId joliet rec).2

/-! ## Scanning -/

/-- `iso_fs_t` with the drive. -/
structure IsoVolume extends IsoFs where
  useJoliet : Bool
  rootLba : Nat
  rootSize : Nat
  drive : IsoDrive

/-- What is on the stack behind the buffer of a sector. -/
abbrev Behind := Nat → Bytes

/-- A record: a place in a sector. -/
structure IsoRec where
  lba : Nat
  off : Nat
  sec : List UInt8

/-- What is read from the record's beginning on. -/
def IsoRec.bytes (behind : Behind) (rec : IsoRec) : Bytes := fun i =>
  if rec.off + i < isoSectorSize then rec.sec.getD (rec.off + i) 0 else behind rec.lba (rec.off + i)

/-- The length that the record begins with. -/
def IsoRec.len (rec : IsoRec) : Nat := (rec.sec.getD rec.off 0).toNat

/-- The node of a record. -/
def isoNodeOf (rec : Bytes) : IsoNode := ⟨rd32 rec 2, rd32 rec 10, (rec 25).toNat⟩

/-- A callback: its code, and what it makes of its argument. -/
abbrev OnEntry (σ : Type) := IsoRec → σ → Int × σ

/-- The inner loop of `iso_scan_dir`. -/
def isoScanSector {σ : Type} (onEntry : OnEntry σ) (lba : Nat) (sec : List UInt8) :
    Nat → Nat → σ → Option (Int × σ)
  | 0, _, _ => none
  | fuel + 1, off, s =>
      if off < isoSectorSize then
        let len := (sec.getD off 0).toNat
        if len = 0 then some (0, s)
        else if isoSectorSize < off + len then some (0, s)
        else if len < 34 then some (0, s)
        else
          let (cb, s) := onEntry ⟨lba, off, sec⟩ s
          if cb ≠ 0 then some (cb, s) else isoScanSector onEntry lba sec fuel (off + len) s
      else some (0, s)

/-- The outer loop of `iso_scan_dir`. -/
def isoScanLoop {σ : Type} (vol : IsoVolume) (onEntry : OnEntry σ) :
    Nat → Nat → Nat → σ → Option (Int × σ)
  | 0, _, _, _ => none
  | fuel + 1, curLba, remaining, s =>
      if 0 < remaining then
        match isoReadSector vol.toIsoFs vol.drive curLba with
        | none => some (-1, s)
        | some sec =>
            (isoScanSector onEntry curLba sec 62 0 s).bind fun (cb, s) =>
              if cb ≠ 0 then some (cb, s)
              else isoScanLoop vol onEntry fuel ((curLba + 1) % 2 ^ 32)
                (if isoSectorSize < remaining then remaining - isoSectorSize else 0) s
      else some (0, s)

/-- `iso_scan_dir`; there is no result if one of its loops does not end in the turns that it is
given. -/
def isoScanDir {σ : Type} (vol : IsoVolume) (dir : IsoNode) (onEntry : OnEntry σ) (s : σ) :
    Option (Int × σ) :=
  if !dir.isDir then some (-1, s)
  else isoScanLoop vol onEntry (dir.size + 1) dir.lba dir.size s

/-! ## Looking up and listing -/

/-- A node with the record that it was filled from, if it is not the root. -/
structure IsoFound where
  node : IsoNode
  record : Option IsoRec

/-- `iso_find_cb`. -/
def isoFindCb (joliet : Bool) (behind : Behind) (name : CString) : OnEntry (Option IsoFound) :=
  fun rec ctx =>
    match isoDecodeRecordName joliet (rec.bytes behind) with
    | none => (0, ctx)
    | some n =>
        if n = [isoDot] ∨ n = [isoDot, isoDot] then (0, ctx)
        else if !isoNameEqCi n name then (0, ctx)
        else (1, some ⟨isoNodeOf (rec.bytes behind), some rec⟩)

/-- `iso_find_in_dir`. -/
def isoFindInDir (vol : IsoVolume) (behind : Behind) (dir : IsoNode) (name : CString) :
    Option IsoFound :=
  match isoScanDir vol dir (isoFindCb vol.useJoliet behind name) none with
  | some (1, found) => found
  | _ => none

theorem isDir_two (lba size : Nat) : (⟨lba, size, 0x02⟩ : IsoNode).isDir = true :=
  decide_eq_true (show (2 &&& 2 : Nat) ≠ 0 by decide)

/-- The directories as `iso_resolve_path` sees them. -/
def isoTree (vol : IsoVolume) (behind : Behind) : DirTree IsoFound where
  root := ⟨⟨vol.rootLba, vol.rootSize, 0x02⟩, none⟩
  isDir cur := cur.node.isDir
  find cur name := isoFindInDir vol behind cur.node name
  rootDir := isDir_two vol.rootLba vol.rootSize

/-- `iso_list_ctx_t`; with each entry, the record that it was filled from. -/
structure IsoListCtx where
  out : List (VfsDirent × IsoRec)
  count : Nat

/-- `iso_list_cb`. -/
def isoListCb (joliet : Bool) (behind : Behind) (maxEntries : Nat) : OnEntry IsoListCtx :=
  fun rec ctx =>
    match isoDecodeRecordName joliet (rec.bytes behind) with
    | none => (0, ctx)
    | some name =>
        if name = [isoDot] ∨ name = [isoDot, isoDot] then (0, ctx)
        else
          let node := isoNodeOf (rec.bytes behind)
          let entry : VfsDirent := ⟨name.take (vfsMaxName - 1), node.isDir, node.size⟩
          (0, ⟨if ctx.count < maxEntries then ctx.out ++ [(entry, rec)] else ctx.out,
            ctx.count + 1⟩)

/-- `iso_op_list_dir`, behind the search for the directory. -/
def isoOpListDir (vol : IsoVolume) (behind : Behind) (dir : IsoNode) (maxEntries : Nat) :
    Except Int IsoListCtx :=
  if !dir.isDir then .error (-2)
  else match isoScanDir vol dir (isoListCb vol.useJoliet behind maxEntries) ⟨[], 0⟩ with
    | some (0, ctx) => .ok ctx
    | _ => .error (-1)

/-! ## What is expected -/

/-- A callback that keeps the records it is handed. -/
def collectCb : OnEntry (List IsoRec) := fun rec recs => (0, recs ++ [rec])

/-- The scan ends, and the records are `recs`. -/
def HandsOut (vol : IsoVolume) (dir : IsoNode) (recs : List IsoRec) : Prop :=
  ∃ code, isoScanDir vol dir collectCb [] = some (code, recs)

/-- The record lies inside the sector. -/
def IsoRec.Inside (rec : IsoRec) : Prop := rec.off + rec.len ≤ isoSectorSize

/-- The name of a record that is not the directory itself or its parent. -/
def isoRecName (joliet : Bool) (behind : Behind) (rec : IsoRec) : Option CString :=
  (isoDecodeRecordName joliet (rec.bytes behind)).filter fun name =>
    name ≠ [isoDot] ∧ name ≠ [isoDot, isoDot]

/-- The names that listing all of the directory reports. -/
def isoNames (vol : IsoVolume) (behind : Behind) (recs : List IsoRec) : List CString :=
  recs.filterMap (isoRecName vol.useJoliet behind)

/-- No two names are the same up to case. -/
def DistinctNames (names : List CString) : Prop :=
  names.Pairwise fun a b => isoNameEqCi a b = false

/-- The records handed out lie inside the sector and are not left by decoding, and what is
listed under a path is found under it, if the names are distinct. -/
def DirFaithful (vol : IsoVolume) (behind behind' : Behind) (path : CString) (dir : IsoNode) :
    Prop :=
  ∃ recs, HandsOut vol dir recs ∧
    (∀ rec ∈ recs, rec.Inside ∧
      isoDecodeReads vol.useJoliet (rec.bytes behind) ≤ rec.len) ∧
    ∀ maxEntries ctx, isoOpListDir vol behind dir maxEntries = .ok ctx →
      DistinctNames (isoNames vol behind recs) → ∀ entry ∈ ctx.out, ∃ found,
        (isoResolvePath (isoTree vol behind') (path ++ slash :: entry.1.name)).2 = some found ∧
        found.record = some entry.2 ∧
        found.node.size = entry.1.size ∧ found.node.isDir = entry.1.isDir

/-- It holds of the directory that a path leads to, whatever is on the stack. -/
def PathFaithful (vol : IsoVolume) (path : CString) : Prop :=
  ∀ behind behind' cur, (isoResolvePath (isoTree vol behind') path).2 = some cur →
    DirFaithful vol behind behind' path cur.node

/-- The name does not run out of its record: it is short enough, or the record has the 63 units
that are read at most, or a semicolon stops it. -/
def NameFits (joliet : Bool) (rec : Bytes) (len : Nat) : Prop :=
  isoWidth joliet * isoUnits joliet rec ≤ len - 33 ∨
    isoWidth joliet * (vfsMaxName - 1) ≤ len - 33 ∨
    ∃ j, isoWidth joliet * (j + 1) ≤ len - 33 ∧ isoUnit joliet rec j = none

/-- No name of the directory runs out of its record, and, if the directory can be listed and the
names are distinct, none is empty or has a slash. -/
def CleanDir (vol : IsoVolume) (behind : Behind) (dir : IsoNode) : Prop :=
  ∀ recs, HandsOut vol dir recs →
    (∀ rec ∈ recs, NameFits vol.useJoliet (rec.bytes behind) rec.len) ∧
    ((∃ ctx, isoOpListDir vol behind dir recs.length = .ok ctx) →
      DistinctNames (isoNames vol behind recs) →
      ∀ name ∈ isoNames vol behind recs, name ≠ [] ∧ slash ∉ name)

/-! ## Decoding -/

section Id

variable {unit : Nat → Option UInt8} {units : Nat}

theorem isoIdLoop_le (unit : Nat → Option UInt8) (units fuel j : Nat) (out : List UInt8) :
    j ≤ (isoIdLoop unit units fuel j out).2 := by
  induction fuel generalizing j out with
  | zero => exact Nat.le_refl j
  | succ fuel ih =>
      rw [isoIdLoop]
      split_ifs
      · cases unit j with
        | none => exact Nat.le_succ j
        | some c => exact (Nat.le_succ j).trans (ih (j + 1) _)
      · exact Nat.le_refl j

/-- No more than `k` units are looked at exactly if one of the three ends of the loop is there. -/
theorem isoIdLoop_snd_le_iff (unit : Nat → Option UInt8) {units fuel j k : Nat} {out : List UInt8}
    (at' : out.length = j) (few : j ≤ 63) (le : j ≤ k) (enough : units ≤ fuel + j) :
    (isoIdLoop unit units fuel j out).2 ≤ k ↔
      units ≤ k ∨ 63 ≤ k ∨ ∃ i, j ≤ i ∧ i < k ∧ unit i = none := by
  induction fuel generalizing j out with
  | zero => exact ⟨fun _ => .inl (by omega), fun _ => le⟩
  | succ fuel ih =>
      rw [isoIdLoop]
      by_cases more : j < units ∧ out.length + 1 < vfsMaxName
      · have less : j + 1 ≤ 63 := by
          have limit : vfsMaxName = 64 := rfl
          omega
        rw [if_pos more]
        cases eq : unit j with
        | none =>
            dsimp only
            constructor
            · exact fun lt => .inr (.inr ⟨j, Nat.le_refl j, lt, eq⟩)
            · rintro (h | h | ⟨i, h, h', -⟩) <;> omega
        | some c =>
            have longer : (out ++ [c]).length = j + 1 := by
              rw [List.length_append, at']
              rfl
            dsimp only
            rcases Nat.lt_or_ge j k with lt | ge
            · rw [ih longer less lt (by omega)]
              refine or_congr Iff.rfl (or_congr Iff.rfl ⟨?_, ?_⟩)
              · exact fun ⟨i, h, h', h''⟩ => ⟨i, by omega, h', h''⟩
              · rintro ⟨i, h, h', h''⟩
                have ne : i ≠ j := by
                  rintro rfl
                  rw [eq] at h''
                  cases h''
                exact ⟨i, by omega, h', h''⟩
            · have far := isoIdLoop_le unit units fuel (j + 1) (out ++ [c])
              constructor
              · omega
              · rintro (h | h | ⟨i, h, h', -⟩) <;> omega
      · rw [if_neg more]
        have limit : vfsMaxName = 64 := rfl
        exact ⟨fun _ => by omega, fun _ => le⟩

theorem isoIdLoop_length (fuel j : Nat) {out : List UInt8} (few : out.length ≤ 63) :
    (isoIdLoop unit units fuel j out).1.length ≤ 63 := by
  induction fuel generalizing j out with
  | zero => exact few
  | succ fuel ih =>
      rw [isoIdLoop]
      split_ifs with more
      · cases unit j with
        | none => exact few
        | some c =>
            refine ih (j + 1) ?_
            have limit : vfsMaxName = 64 := rfl
            rw [List.length_append, List.length_singleton]
            omega
      · exact few

/-- Only the units that are looked at matter. -/
theorem isoIdLoop_congr {unit' : Nat → Option UInt8} {fuel j : Nat} {out : List UInt8}
    (same : ∀ i < (isoIdLoop unit units fuel j out).2, unit i = unit' i) :
    isoIdLoop unit' units fuel j out = isoIdLoop unit units fuel j out := by
  induction fuel generalizing j out with
  | zero => rfl
  | succ fuel ih =>
      unfold isoIdLoop at same ⊢
      split_ifs at same ⊢ with more
      · cases eq : unit j with
        | none =>
            rw [eq] at same
            rw [← same j (Nat.lt_succ_self j), eq]
        | some c =>
            rw [eq] at same
            dsimp only at same
            have here : unit j = unit' j :=
              same j (Nat.lt_of_succ_le (isoIdLoop_le unit units fuel (j + 1) (out ++ [c])))
            rw [← here, eq]
            exact ih same
      · rfl

end Id

theorem isoWidth_pos (joliet : Bool) : 0 < isoWidth joliet := by
  cases joliet <;> decide

/-- Decoding reads no more than the record exactly if the name fits into it. -/
theorem isoDecodeReads_le_iff (joliet : Bool) (rec : Bytes) {len : Nat} (le : 34 ≤ len) :
    isoDecodeReads joliet rec ≤ len ↔ NameFits joliet rec len := by
  have pos := isoWidth_pos joliet
  rw [isoDecodeReads]
  split_ifs with special
  · refine ⟨fun _ => .inl ?_, fun _ => le⟩
    have one : (rec 32).toNat = 1 := by rw [special.1]; rfl
    have few := Nat.mul_div_le (rec 32).toNat (isoWidth joliet)
    rw [isoUnits]
    omega
  · have units := isoIdLoop_snd_le_iff (isoUnit joliet rec)
      (show ([] : List UInt8).length = 0 from rfl) (Nat.zero_le 63)
      (Nat.zero_le ((len - 33) / isoWidth joliet))
      (show isoUnits joliet rec ≤ isoUnits joliet rec + 0 from Nat.le_refl _)
    have div : ∀ n, n ≤ (len - 33) / isoWidth joliet ↔ isoWidth joliet * n ≤ len - 33 := fun n => by
      rw [Nat.le_div_iff_mul_le pos, Nat.mul_comm]
    rw [← isoId, div, div] at units
    rw [show 33 + isoWidth joliet * (isoId joliet rec).2 ≤ len ↔
      isoWidth joliet * (isoId joliet rec).2 ≤ len - 33 by omega, units, NameFits]
    refine or_congr Iff.rfl (or_congr ?_ ?_)
    · exact div 63
    · refine exists_congr fun j => ?_
      rw [← div, Nat.succ_le_iff]
      exact ⟨fun h => h.2, fun h => ⟨Nat.zero_le j, h⟩⟩

/-- Only the bytes that are read matter. -/
theorem isoDecodeRecordName_congr {joliet : Bool} {rec rec' : Bytes}
    (same : ∀ i, i < 34 ∨ i < isoDecodeReads joliet rec → rec i = rec' i) :
    isoDecodeRecordName joliet rec = isoDecodeRecordName joliet rec' := by
  unfold isoDecodeRecordName
  rw [← same 32 (.inl (by decide)), ← same 33 (.inl (by decide))]
  split_ifs with this parent
  · rfl
  · rfl
  · have plain : ¬(rec 32 = 1 ∧ (rec 33 = 0 ∨ rec 33 = 1)) := by tauto
    rw [isoDecodeReads, if_neg plain] at same
    have id : isoId joliet rec' = isoId joliet rec := by
      have units : isoUnits joliet rec' = isoUnits joliet rec := by
        rw [isoUnits, isoUnits, same 32 (.inl (by decide))]
      rw [isoId, units]
      refine isoIdLoop_congr fun i lt => ?_
      change i < (isoId joliet rec).2 at lt
      cases joliet with
      | false =>
          simp only [isoWidth, Bool.false_eq_true, if_false] at same
          simp only [isoUnit, Bool.false_eq_true, if_false]
          rw [same (33 + i) (.inr (by omega))]
      | true =>
          simp only [isoWidth, if_true] at same
          simp only [isoUnit, if_true]
          rw [same (33 + 2 * i) (.inr (by omega)), same (33 + (2 * i + 1)) (.inr (by omega))]
    rw [id]

theorem isoDecodeRecordName_length {joliet : Bool} {rec : Bytes} {name : CString}
    (eq : isoDecodeRecordName joliet rec = some name) : name.length < vfsMaxName := by
  unfold isoDecodeRecordName at eq
  split_ifs at eq with this parent
  · cases eq
    decide
  · cases eq
    decide
  · dsimp only at eq
    split_ifs at eq
    cases eq
    have few : (isoId joliet rec).1.length ≤ 63 := isoIdLoop_length _ _ (Nat.zero_le _)
    have cut := List.rdropWhile_prefix (· == isoDot) (l := (isoId joliet rec).1)
    have stop := List.takeWhile_prefix (· != 0) (l := (isoId joliet rec).1.rdropWhile (· == isoDot))
    have length := stop.length_le.trans cut.length_le
    have limit : vfsMaxName = 64 := rfl
    omega

/-! ## Comparing -/

theorem isoNameEqCi_iff {a b : CString} : isoNameEqCi a b = true ↔ a.map lower = b.map lower := by
  induction a generalizing b with
  | nil => cases b <;> simp [isoNameEqCi]
  | cons c a ih =>
      cases b with
      | nil => simp [isoNameEqCi]
      | cons d b =>
          rw [isoNameEqCi, List.map_cons, List.map_cons, List.cons.injEq]
          split_ifs with ne
          · simp [ne]
          · rw [ih]
            simp [not_not.mp ne]

theorem lower_eq_slash {c : UInt8} (eq : lower c = slash) : c = slash := by
  unfold lower at eq
  split_ifs at eq with upper
  · rw [UInt8.le_iff_toNat_le, UInt8.le_iff_toNat_le] at upper
    have value := congrArg UInt8.toNat eq
    rw [UInt8.toNat_add] at value
    have low : (65 : UInt8).toNat = 65 := rfl
    have high : (90 : UInt8).toNat = 90 := rfl
    have step : (32 : UInt8).toNat = 32 := rfl
    have code : slash.toNat = 47 := rfl
    omega
  · exact eq

/-- What is the same as a token up to case is not empty and has no slash either. -/
theorem clean_of_eqCi {name tok : CString} (same : isoNameEqCi name tok = true) (ne : tok ≠ [])
    (clean : slash ∉ tok) : name ≠ [] ∧ slash ∉ name := by
  rw [isoNameEqCi_iff] at same
  constructor
  · rintro rfl
    exact ne (List.map_eq_nil_iff.mp same.symm)
  · intro mem
    have low : slash ∈ tok.map lower := by
      rw [← same]
      exact List.mem_map.mpr ⟨slash, mem, rfl⟩
    obtain ⟨c, mem, eq⟩ := List.mem_map.mp low
    exact clean (lower_eq_slash eq ▸ mem)

/-! ## What a scan does -/

/-- A callback over records, until it returns something else than zero. -/
def runOver {σ : Type} (onEntry : OnEntry σ) : List IsoRec → σ → Int × σ
  | [], s => (0, s)
  | rec :: recs, s =>
      if (onEntry rec s).1 ≠ 0 then onEntry rec s else runOver onEntry recs (onEntry rec s).2

theorem runOver_append {σ : Type} (onEntry : OnEntry σ) (a b : List IsoRec) (s : σ) :
    runOver onEntry (a ++ b) s =
      if (runOver onEntry a s).1 ≠ 0 then runOver onEntry a s
      else runOver onEntry b (runOver onEntry a s).2 := by
  induction a generalizing s with
  | nil => rfl
  | cons rec a ih =>
      rw [List.cons_append, runOver, runOver]
      by_cases stop : (onEntry rec s).1 ≠ 0
      · rw [if_pos stop, if_pos stop, if_pos stop]
      · rw [if_neg stop, if_neg stop, ih]

/-- The record is inside its sector, and long enough for what is read of every record. -/
def IsoRec.Fits (rec : IsoRec) : Prop := rec.Inside ∧ 34 ≤ rec.len

/-- The records of a sector are the same for all callbacks. -/
theorem isoScanSector_spec (lba : Nat) (sec : List UInt8) {fuel off : Nat}
    (le : off ≤ isoSectorSize) (enough : isoSectorSize < 34 * fuel + off) :
    ∃ recs, (∀ rec ∈ recs, rec.Fits ∧ rec.sec = sec) ∧
      ∀ {σ : Type} (onEntry : OnEntry σ) (s : σ),
        isoScanSector onEntry lba sec fuel off s = some (runOver onEntry recs s) := by
  induction fuel generalizing off with
  | zero =>
      omega
  | succ fuel ih =>
      simp only [isoScanSector]
      have nothing : ∀ rec ∈ ([] : List IsoRec), rec.Fits ∧ rec.sec = sec := by simp
      by_cases inside : off < isoSectorSize
      · by_cases stop : (sec.getD off 0).toNat = 0 ∨ isoSectorSize < off + (sec.getD off 0).toNat ∨
            (sec.getD off 0).toNat < 34
        · refine ⟨[], nothing, fun onEntry s => ?_⟩
          rw [if_pos inside]
          split_ifs <;> first | rfl | tauto
        · obtain ⟨nonzero, fit, long⟩ : (sec.getD off 0).toNat ≠ 0 ∧
              ¬isoSectorSize < off + (sec.getD off 0).toNat ∧
              ¬(sec.getD off 0).toNat < 34 := by tauto
          have inside' : off + (sec.getD off 0).toNat ≤ isoSectorSize := Nat.le_of_not_lt fit
          obtain ⟨recs, fits, run⟩ := ih inside' (by omega)
          refine ⟨⟨lba, off, sec⟩ :: recs, ?_, fun onEntry s => ?_⟩
          · exact List.forall_mem_cons.mpr ⟨⟨⟨inside', Nat.le_of_not_lt long⟩, rfl⟩, fits⟩
          · rw [if_pos inside, if_neg nonzero, if_neg fit, if_neg long, runOver, run]
            split_ifs <;> rfl
      · exact ⟨[], nothing, fun onEntry s => if_neg inside⟩

theorem isoScanLoop_spec (vol : IsoVolume) {fuel remaining : Nat} (enough : remaining < fuel)
    (lba : Nat) :
    ∃ (recs : List IsoRec) (code : Int), code ≤ 0 ∧ (∀ rec ∈ recs, rec.Fits) ∧
      ∀ {σ : Type} (onEntry : OnEntry σ) (s : σ),
        isoScanLoop vol onEntry fuel lba remaining s =
          some (if (runOver onEntry recs s).1 ≠ 0 then runOver onEntry recs s
            else (code, (runOver onEntry recs s).2)) := by
  induction fuel generalizing remaining lba with
  | zero => omega
  | succ fuel ih =>
      simp only [isoScanLoop]
      by_cases more : 0 < remaining
      · cases read : isoReadSector vol.toIsoFs vol.drive lba with
        | none =>
            refine ⟨[], -1, by decide, by simp, fun onEntry s => ?_⟩
            rw [if_pos more]
            rfl
        | some sec =>
            have rest : (if isoSectorSize < remaining then remaining - isoSectorSize else 0) <
                fuel := by
              have size : isoSectorSize = 2048 := rfl
              split_ifs <;> omega
            obtain ⟨here, fits, run⟩ := isoScanSector_spec lba sec (Nat.zero_le _)
              (show isoSectorSize < 34 * 62 + 0 by decide)
            obtain ⟨recs, code, le, fits', run'⟩ := ih rest ((lba + 1) % 2 ^ 32)
            refine ⟨here ++ recs, code, le, ?_, fun onEntry s => ?_⟩
            · exact List.forall_mem_append.mpr ⟨fun rec mem => (fits rec mem).1, fits'⟩
            · rw [if_pos more]
              dsimp only
              rw [run, Option.bind_some, run', runOver_append]
              split_ifs <;> rfl
      · exact ⟨[], 0, Int.le_refl 0, by simp, fun onEntry s => if_neg more⟩

/-- The scan of a directory ends, and whatever the callback is, it is called on `recs`, each
inside its sector; `code` is returned if it never stops. -/
structure ScansAs (vol : IsoVolume) (dir : IsoNode) (recs : List IsoRec) (code : Int) : Prop where
  le : code ≤ 0
  fits : ∀ rec ∈ recs, rec.Fits
  run : ∀ {σ : Type} (onEntry : OnEntry σ) (s : σ),
    isoScanDir vol dir onEntry s =
      some (if (runOver onEntry recs s).1 ≠ 0 then runOver onEntry recs s
        else (code, (runOver onEntry recs s).2))

theorem isoScanDir_spec (vol : IsoVolume) (dir : IsoNode) :
    ∃ recs code, ScansAs vol dir recs code := by
  by_cases isDir : dir.isDir = true
  · obtain ⟨recs, code, le, fits, run⟩ :=
      isoScanLoop_spec vol (Nat.lt_succ_self dir.size) dir.lba
    refine ⟨recs, code, le, fits, fun onEntry s => ?_⟩
    rw [isoScanDir, isDir]
    exact run onEntry s
  · refine ⟨[], -1, by decide, by simp, fun onEntry s => ?_⟩
    rw [isoScanDir, Bool.eq_false_iff.mpr isDir]
    rfl

theorem runOver_collectCb (recs before : List IsoRec) :
    runOver collectCb recs before = (0, before ++ recs) := by
  induction recs generalizing before with
  | nil => rw [runOver, List.append_nil]
  | cons rec recs ih =>
      rw [runOver]
      simp only [collectCb, ne_eq, not_true_eq_false, if_false]
      exact (ih _).trans (by rw [List.append_assoc]; rfl)

section Directory

variable {vol : IsoVolume} {dir : IsoNode} {recs : List IsoRec} {code : Int}
  {behind behind' : Behind}

theorem ScansAs.handsOut_iff (scan : ScansAs vol dir recs code) {recs' : List IsoRec} :
    HandsOut vol dir recs' ↔ recs' = recs := by
  have run := scan.run collectCb []
  rw [runOver_collectCb, if_neg (by simp)] at run
  constructor
  · rintro ⟨code', eq⟩
    rw [run] at eq
    cases eq
    rfl
  · rintro rfl
    exact ⟨code, run⟩

/-! ## What is found -/

/-- The record has the name, up to case. -/
def HasName (joliet : Bool) (behind : Behind) (name : CString) (rec : IsoRec) : Bool :=
  (isoRecName joliet behind rec).any (isoNameEqCi · name)

/-- What `iso_find_cb` makes of a record. -/
def foundAt (behind : Behind) (rec : IsoRec) : IsoFound :=
  ⟨isoNodeOf (rec.bytes behind), some rec⟩

/-- Both callbacks pass the names of the directory itself and its parent by. -/
theorem match_isoRecName {β : Type} (joliet : Bool) (behind : Behind) (rec : IsoRec) (skipped : β)
    (named : CString → β) :
    (match isoDecodeRecordName joliet (rec.bytes behind) with
      | none => skipped
      | some n => if n = [isoDot] ∨ n = [isoDot, isoDot] then skipped else named n) =
    match isoRecName joliet behind rec with
      | none => skipped
      | some n => named n := by
  unfold isoRecName
  cases isoDecodeRecordName joliet (rec.bytes behind) with
  | none => rfl
  | some n =>
      by_cases special : n = [isoDot] ∨ n = [isoDot, isoDot]
      · have skip : ¬(n ≠ [isoDot] ∧ n ≠ [isoDot, isoDot]) := by tauto
        simp [special, skip, Option.filter]
      · have keep : n ≠ [isoDot] ∧ n ≠ [isoDot, isoDot] := by tauto
        simp [keep, Option.filter]

theorem isoFindCb_eq (joliet : Bool) (behind : Behind) (name : CString) (rec : IsoRec)
    (ctx : Option IsoFound) :
    isoFindCb joliet behind name rec ctx =
      if HasName joliet behind name rec then (1, some (foundAt behind rec)) else (0, ctx) := by
  refine (match_isoRecName joliet behind rec (0, ctx) _).trans ?_
  unfold HasName
  cases isoRecName joliet behind rec with
  | none => rfl
  | some n =>
      by_cases same : isoNameEqCi n name = true
      · simp [same, foundAt]
      · simp [same]

theorem runOver_isoFindCb (joliet : Bool) (behind : Behind) (name : CString)
    (recs : List IsoRec) :
    runOver (isoFindCb joliet behind name) recs none =
      match recs.find? (HasName joliet behind name) with
      | none => (0, none)
      | some rec => (1, some (foundAt behind rec)) := by
  induction recs with
  | nil => rfl
  | cons rec recs ih =>
      rw [runOver, isoFindCb_eq, List.find?_cons]
      cases HasName joliet behind name rec with
      | true => rfl
      | false => exact ih

/-- The first record of the name is found. -/
theorem ScansAs.isoFindInDir_eq (scan : ScansAs vol dir recs code) (name : CString) :
    isoFindInDir vol behind dir name =
      (recs.find? (HasName vol.useJoliet behind name)).map (foundAt behind) := by
  rw [isoFindInDir, scan.run, runOver_isoFindCb]
  cases recs.find? (HasName vol.useJoliet behind name) with
  | none =>
      dsimp only
      split
      · next eq =>
          rw [if_neg (by simp)] at eq
          cases eq
          exact absurd scan.le (by decide)
      · rfl
  | some rec => rfl

/-- Of names that differ pairwise, the one looked for is found. -/
theorem find?_of_distinct {α β : Type} {f : α → Option β} {r : β → β → Bool} {l : List α}
    {x : α} {b : β} (distinct : (l.filterMap f).Pairwise fun a b => r a b = false) (mem : x ∈ l)
    (eq : f x = some b) (same : r b b = true) :
    l.find? (fun a => (f a).any (r · b)) = some x := by
  induction l with
  | nil => exact absurd mem List.not_mem_nil
  | cons a l ih =>
      rw [List.find?_cons]
      rcases List.mem_cons.mp mem with rfl | mem
      · simp [eq, same]
      · cases eq' : f a with
        | none =>
            rw [List.filterMap_cons_none eq'] at distinct
            exact ih distinct mem
        | some c =>
            rw [List.filterMap_cons_some eq', List.pairwise_cons] at distinct
            have differ := distinct.1 b (List.mem_filterMap.mpr ⟨x, mem, eq⟩)
            simp only [Option.any_some, differ]
            exact ih distinct.2 mem

/-! ## What is listed -/

/-- The entry that `iso_list_cb` makes of a record. -/
def listedAt (behind : Behind) (rec : IsoRec) (name : CString) : VfsDirent × IsoRec :=
  (⟨name.take (vfsMaxName - 1), (isoNodeOf (rec.bytes behind)).isDir,
    (isoNodeOf (rec.bytes behind)).size⟩, rec)

/-- All entries of a directory. -/
def isoListed (joliet : Bool) (behind : Behind) (recs : List IsoRec) :
    List (VfsDirent × IsoRec) :=
  recs.filterMap fun rec => (isoRecName joliet behind rec).map (listedAt behind rec)

theorem isoListCb_eq (joliet : Bool) (behind : Behind) (maxEntries : Nat) (rec : IsoRec)
    (ctx : IsoListCtx) :
    isoListCb joliet behind maxEntries rec ctx =
      match isoRecName joliet behind rec with
      | none => (0, ctx)
      | some name =>
          (0, ⟨if ctx.count < maxEntries then ctx.out ++ [listedAt behind rec name] else ctx.out,
            ctx.count + 1⟩) := by
  exact match_isoRecName joliet behind rec (0, ctx) _

theorem runOver_isoListCb (joliet : Bool) (behind : Behind) (maxEntries : Nat)
    (recs : List IsoRec) (ctx : IsoListCtx) :
    runOver (isoListCb joliet behind maxEntries) recs ctx =
      (0, ⟨ctx.out ++ (isoListed joliet behind recs).take (maxEntries - ctx.count),
        ctx.count + (isoListed joliet behind recs).length⟩) := by
  induction recs generalizing ctx with
  | nil => simp [runOver, isoListed]
  | cons rec recs ih =>
      rw [runOver, isoListCb_eq, isoListed, List.filterMap_cons]
      cases isoRecName joliet behind rec with
      | none => exact ih ctx
      | some name =>
          simp only [ne_eq, not_true_eq_false, if_false, Option.map_some]
          rw [ih]
          refine congrArg (Prod.mk 0) ?_
          rw [← isoListed, List.length_cons]
          congr 1
          · dsimp only
            by_cases room : ctx.count < maxEntries
            · obtain ⟨k, eq⟩ : ∃ k, maxEntries - ctx.count = k + 1 :=
                ⟨maxEntries - ctx.count - 1, by omega⟩
              rw [if_pos room, eq, List.take_succ_cons, List.append_assoc,
                show maxEntries - (ctx.count + 1) = k by omega]
              rfl
            · rw [if_neg room, show maxEntries - ctx.count = 0 by omega,
                show maxEntries - (ctx.count + 1) = 0 by omega]
              rfl
          · dsimp only
            omega

/-- A listing gives the entries in front, if all sectors can be read. -/
theorem ScansAs.isoOpListDir_eq (scan : ScansAs vol dir recs code) (maxEntries : Nat) :
    isoOpListDir vol behind dir maxEntries =
      if !dir.isDir then .error (-2)
      else if code = 0 then
        .ok ⟨(isoListed vol.useJoliet behind recs).take maxEntries,
          (isoListed vol.useJoliet behind recs).length⟩
      else .error (-1) := by
  have never : ¬(0 : Int) ≠ 0 := fun ne => ne rfl
  rw [isoOpListDir, scan.run, runOver_isoListCb, if_neg never]
  dsimp only
  split_ifs with file zero
  · rfl
  · subst zero
    simp
  · split
    · next eq =>
        cases eq
        exact absurd rfl zero
    · rfl

end Directory

/-! ## Paths -/

/-- The tokens are not empty and have no slash. -/
theorem extPathTokens_clean (fuel : Nat) (p : CString) :
    ∀ tok ∈ extPathTokens fuel p, tok ≠ [] ∧ slash ∉ tok := by
  induction fuel generalizing p with
  | zero => exact fun tok mem => absurd mem List.not_mem_nil
  | succ fuel ih =>
      unfold extPathTokens
      rcases components_cases p with ⟨skipped, -⟩ | ⟨w, r, skipped, ne, -, -, word, -⟩
      · rw [skipped]
        exact fun tok mem => absurd mem List.not_mem_nil
      · rw [skipped]
        cases eq : w ++ r with
        | nil => exact absurd (List.append_eq_nil_iff.1 eq).1 ne
        | cons c s =>
            dsimp only
            rw [← eq, word]
            refine List.forall_mem_cons.2 ⟨⟨?_, ?_⟩, ih _⟩
            · rw [Ne, List.take_eq_nil_iff]
              rintro (limit | nil)
              · exact absurd limit (by decide)
              · exact ne nil
            · intro mem
              have mem' := List.mem_of_mem_take mem
              rw [← word] at mem'
              exact absurd (List.mem_takeWhile_imp mem') (by decide)

theorem extPathTokens_nil (fuel : Nat) : extPathTokens fuel [] = [] := by
  cases fuel <;> rfl

/-- What follows the slashes in front, if it is a name and no more. -/
theorem extPathTokens_name {fuel : Nat} {p name : CString} (skipped : p.dropWhile (· == slash) = [])
    (short : name.length < vfsMaxName) (ne : name ≠ []) (clean : slash ∉ name) :
    extPathTokens (fuel + 1) (p ++ slash :: name) = [name] := by
  have word : ∀ c ∈ name, (c != slash) = true := by
    intro c mem
    refine bne_iff_ne.mpr ?_
    rintro rfl
    exact clean mem
  have limit : vfsMaxName = 64 := rfl
  unfold extPathTokens
  rw [List.dropWhile_append, skipped, List.isEmpty_nil, if_pos rfl,
    List.dropWhile_cons_of_pos (by decide)]
  cases name with
  | nil => exact absurd rfl ne
  | cons c s =>
      have first : (c :: s).dropWhile (· == slash) = c :: s := by
        have differ := word c List.mem_cons_self
        refine List.dropWhile_cons_of_neg ?_
        simpa using differ
      rw [first]
      dsimp only
      rw [List.takeWhile_eq_self_iff.mpr word, List.take_of_length_le (by omega), List.drop_length,
        extPathTokens_nil]

/-- A name behind a slash is the last token. -/
theorem extPathTokens_append {fuel fuel' : Nat} {p name : CString} (le : p.length ≤ fuel)
    (le' : p.length + 1 ≤ fuel') (short : name.length < vfsMaxName) (ne : name ≠ [])
    (clean : slash ∉ name) :
    extPathTokens fuel' (p ++ slash :: name) = extPathTokens fuel p ++ [name] := by
  obtain ⟨fuel', rfl⟩ : ∃ k, fuel' = k + 1 := ⟨fuel' - 1, by omega⟩
  induction fuel generalizing p fuel' with
  | zero =>
      obtain rfl := List.length_eq_zero_iff.1 (Nat.le_zero.1 le)
      exact extPathTokens_name rfl short ne clean
  | succ fuel ih =>
      rcases components_cases p with ⟨skipped, -⟩ | ⟨w, r, skipped, ne', -, -, word, -⟩
      · rw [extPathTokens_name skipped short ne clean, extPathTokens, skipped]
        rfl
      · have letters : ∀ c ∈ w, (c != slash) = true := by
          intro c mem
          rw [← word] at mem
          exact List.mem_takeWhile_imp (p := (· != slash)) mem
        have stop : ∀ q : CString, (r ++ slash :: q).takeWhile (· != slash) = [] := by
          intro q
          rw [List.takeWhile_append_of_pos letters, List.append_right_eq_self] at word
          cases r with
          | nil => rfl
          | cons d r =>
              rw [List.takeWhile_cons] at word
              rw [List.cons_append, List.takeWhile_cons]
              split_ifs at word ⊢ with differ
              rfl
        have shorter := (List.dropWhile_sublist (· == slash) (l := p)).length_le
        have token : 1 ≤ (w.take (vfsMaxName - 1)).length := by
          rw [List.length_take]
          have pos := List.length_pos_iff.mpr ne'
          have limit : vfsMaxName = 64 := rfl
          omega
        have few : (w.take (vfsMaxName - 1)).length ≤ (w ++ r).length := by
          rw [List.length_take, List.length_append]
          omega
        rw [skipped] at shorter
        have whole : ¬(w ++ r).isEmpty = true := by simp [ne']
        unfold extPathTokens
        rw [List.dropWhile_append, skipped, if_neg whole]
        cases eq : w ++ r with
        | nil => exact absurd (List.append_eq_nil_iff.1 eq).1 ne'
        | cons c s =>
            dsimp only [List.cons_append]
            rw [← List.cons_append, ← eq, word, List.append_assoc,
              List.takeWhile_append_of_pos letters, stop, List.append_nil, ← List.append_assoc,
              List.drop_append_of_le_length few]
            have less : ((w ++ r).drop (w.take (vfsMaxName - 1)).length).length + 1 ≤ p.length := by
              rw [List.length_drop]
              omega
            obtain ⟨k, rfl⟩ : ∃ k, fuel' = k + 1 := ⟨fuel' - 1, by omega⟩
            rw [ih (by omega) k (by omega)]

theorem DirTree.walk_append {ν : Type} (t : DirTree ν) {cur mid : ν} {toks : List CString}
    (found : (t.walk cur toks).2 = some mid) (rest : List CString) :
    (t.walk cur (toks ++ rest)).2 = (t.walk mid rest).2 := by
  induction toks generalizing cur with
  | nil =>
      cases found
      rfl
  | cons tok toks ih =>
      rw [List.cons_append]
      rw [DirTree.walk] at found ⊢
      split_ifs at found ⊢ with isDir
      · cases eq : t.find cur tok with
        | none =>
            rw [eq] at found
            cases found
        | some next =>
            rw [eq] at found
            exact ih found

/-- What a walk ends at is where it began, or has been found under a token. -/
theorem DirTree.walk_found {ν : Type} (t : DirTree ν) {cur last : ν} {toks : List CString}
    (found : (t.walk cur toks).2 = some last) :
    last = cur ∨ ∃ tok ∈ toks, ∃ dir, t.find dir tok = some last := by
  induction toks generalizing cur with
  | nil =>
      cases found
      exact .inl rfl
  | cons tok toks ih =>
      unfold DirTree.walk at found
      split_ifs at found
      cases eq : t.find cur tok with
      | none =>
          rw [eq] at found
          cases found
      | some next =>
          rw [eq] at found
          rcases ih found with rfl | ⟨tok', mem, dir, eq'⟩
          · exact .inr ⟨tok, List.mem_cons_self, cur, eq⟩
          · exact .inr ⟨tok', List.mem_cons_of_mem _ mem, dir, eq'⟩

/-- What a path leads to, if it was filled from a record, has a name that is not empty and has no
slash. -/
theorem isoResolvePath_record {vol : IsoVolume} {behind : Behind} {path : CString}
    {found : IsoFound} {rec : IsoRec}
    (resolved : (isoResolvePath (isoTree vol behind) path).2 = some found)
    (record : found.record = some rec) :
    ∃ name, isoRecName vol.useJoliet behind rec = some name ∧ name ≠ [] ∧ slash ∉ name := by
  unfold isoResolvePath at resolved
  split_ifs at resolved
  rw [isoPathTokens_eq] at resolved
  rcases (isoTree vol behind).walk_found resolved with rfl | ⟨tok, mem, dir, eq⟩
  · cases record
  · obtain ⟨ne, clean⟩ := extPathTokens_clean _ _ tok mem
    obtain ⟨recs, code, scan⟩ := isoScanDir_spec vol dir.node
    change isoFindInDir vol behind dir.node tok = some found at eq
    rw [scan.isoFindInDir_eq] at eq
    obtain ⟨rec', hit, rfl⟩ := Option.map_eq_some_iff.mp eq
    cases record
    have named := List.find?_some hit
    unfold HasName at named
    cases eq' : isoRecName vol.useJoliet behind rec with
    | none =>
        rw [eq'] at named
        cases named
    | some name =>
        rw [eq'] at named
        exact ⟨name, rfl, clean_of_eqCi named ne clean⟩

/-- A name that is listed can be put behind the path. -/
theorem isoResolvePath_append {ν : Type} (t : DirTree ν) {path name : CString} {cur : ν}
    (resolved : (isoResolvePath t path).2 = some cur) (isDir : t.isDir cur = true)
    (short : name.length < vfsMaxName) (ne : name ≠ []) (clean : slash ∉ name) :
    (isoResolvePath t (path ++ slash :: name)).2 = t.find cur name := by
  unfold isoResolvePath at resolved ⊢
  split_ifs at resolved with relative
  have absolute : ¬(path ++ slash :: name).head? ≠ some slash := by
    cases path with
    | nil => exact absurd (not_not.mp relative) (by simp)
    | cons c path => exact relative
  rw [isoPathTokens_eq] at resolved
  rw [if_neg absolute, isoPathTokens_eq,
    extPathTokens_append (Nat.le_refl path.length) (by rw [List.length_append]; simp) short ne
      clean, t.walk_append resolved, DirTree.walk, if_pos isDir]
  cases t.find cur name <;> rfl

/-! ## Where it is so -/

section Records

variable {vol : IsoVolume} {behind behind' : Behind} {rec : IsoRec}

/-- The bytes of a record are those of its sector. -/
theorem IsoRec.Inside.bytes_eq (inside : rec.Inside) {i : Nat} (lt : i < rec.len) :
    rec.bytes behind i = rec.bytes behind' i := by
  have inside' : rec.off + rec.len ≤ isoSectorSize := inside
  have lt' : rec.off + i < isoSectorSize := by omega
  rw [IsoRec.bytes, IsoRec.bytes, if_pos lt', if_pos lt']

theorem IsoRec.Fits.isoNodeOf_eq (fits : rec.Fits) :
    isoNodeOf (rec.bytes behind) = isoNodeOf (rec.bytes behind') := by
  obtain ⟨inside, long⟩ := fits
  have same : ∀ i < 34, rec.bytes behind i = rec.bytes behind' i := fun i lt =>
    inside.bytes_eq (by omega)
  rw [isoNodeOf, isoNodeOf, same 25 (by decide), rd32_congr fun i lt => same (2 + i) (by omega),
    rd32_congr fun i lt => same (10 + i) (by omega)]

/-- A name that fits is the same whatever is behind the sector. -/
theorem IsoRec.Fits.isoRecName_eq (fits : rec.Fits) {joliet : Bool}
    (name : NameFits joliet (rec.bytes behind) rec.len) :
    isoRecName joliet behind rec = isoRecName joliet behind' rec := by
  obtain ⟨inside, long⟩ := fits
  rw [← isoDecodeReads_le_iff joliet _ long] at name
  have same : ∀ i, i < 34 ∨ i < isoDecodeReads joliet (rec.bytes behind) →
      rec.bytes behind i = rec.bytes behind' i := fun i less => inside.bytes_eq (by omega)
  rw [isoRecName, isoRecName, isoDecodeRecordName_congr same]

end Records

theorem isoRecName_length {joliet : Bool} {behind : Behind} {rec : IsoRec} {name : CString}
    (eq : isoRecName joliet behind rec = some name) : name.length < vfsMaxName :=
  isoDecodeRecordName_length (Option.filter_eq_some_iff.mp eq).1

section Clean

variable {vol : IsoVolume} {behind behind' : Behind} {path : CString} {cur : IsoFound}
  {recs : List IsoRec} {code : Int}

/-- What is faithful is clean: a name that is found under a path is no other name. -/
theorem clean_of_faithful (scan : ScansAs vol cur.node recs code)
    (faithful : DirFaithful vol behind behind' path cur.node) : CleanDir vol behind cur.node := by
  obtain ⟨recs', handed, inside, found⟩ := faithful
  obtain rfl := scan.handsOut_iff.mp handed
  intro recs'' handed''
  obtain rfl := scan.handsOut_iff.mp handed''
  have fit : ∀ rec ∈ recs'', NameFits vol.useJoliet (rec.bytes behind) rec.len :=
    fun rec mem => (isoDecodeReads_le_iff _ _ (scan.fits rec mem).2).mp (inside rec mem).2
  refine ⟨fit, ?_⟩
  rintro ⟨ctx, listed⟩ distinct name mem
  obtain ⟨rec, mem, named⟩ := List.mem_filterMap.mp mem
  have entry : listedAt behind rec name ∈ ctx.out := by
    rw [scan.isoOpListDir_eq] at listed
    split_ifs at listed
    cases listed
    dsimp only
    rw [isoListed, List.take_of_length_le (List.length_filterMap_le _ _)]
    exact List.mem_filterMap.mpr ⟨rec, mem, by rw [named]; rfl⟩
  obtain ⟨found, resolved', record, -⟩ := found _ ctx listed distinct _ entry
  obtain ⟨name', named', clean⟩ := isoResolvePath_record resolved' record
  change isoRecName vol.useJoliet behind' rec = some name' at named'
  rw [← (scan.fits rec mem).isoRecName_eq (fit rec mem)] at named'
  obtain rfl : name = name' := Option.some.inj (named.symm.trans named')
  exact clean

/-- Of clean names that differ, each is found under the path. -/
theorem found_of_clean (scan : ScansAs vol cur.node recs code)
    (resolved : (isoResolvePath (isoTree vol behind') path).2 = some cur)
    (isDir : cur.node.isDir = true)
    (fit : ∀ rec ∈ recs, NameFits vol.useJoliet (rec.bytes behind) rec.len)
    (distinct : DistinctNames (isoNames vol behind recs)) {rec : IsoRec} (mem : rec ∈ recs)
    {name : CString} (named : isoRecName vol.useJoliet behind rec = some name) (ne : name ≠ [])
    (clean : slash ∉ name) :
    (isoResolvePath (isoTree vol behind') (path ++ slash :: name)).2 =
      some (foundAt behind' rec) := by
  have same : ∀ rec ∈ recs, isoRecName vol.useJoliet behind rec =
      isoRecName vol.useJoliet behind' rec := fun rec mem =>
    (scan.fits rec mem).isoRecName_eq (fit rec mem)
  have distinct' : (recs.filterMap (isoRecName vol.useJoliet behind')).Pairwise
      fun a b => isoNameEqCi a b = false := by
    rw [← List.filterMap_congr same]
    exact distinct
  have hit := find?_of_distinct distinct' mem ((same rec mem).symm.trans named)
    (isoNameEqCi_iff.mpr rfl)
  rw [isoResolvePath_append _ resolved isDir (isoRecName_length named) ne clean]
  exact (scan.isoFindInDir_eq name).trans (congrArg (Option.map (foundAt behind')) hit)

theorem faithful_of_clean (scan : ScansAs vol cur.node recs code)
    (resolved : (isoResolvePath (isoTree vol behind') path).2 = some cur)
    (clean : CleanDir vol behind cur.node) : DirFaithful vol behind behind' path cur.node := by
  obtain ⟨fit, names⟩ := clean recs (scan.handsOut_iff.mpr rfl)
  refine ⟨recs, scan.handsOut_iff.mpr rfl, fun rec mem => ⟨(scan.fits rec mem).1, ?_⟩, ?_⟩
  · exact (isoDecodeReads_le_iff _ _ (scan.fits rec mem).2).mpr (fit rec mem)
  · intro maxEntries ctx listed distinct entry reported
    have all := names
      (by
        rw [scan.isoOpListDir_eq] at listed ⊢
        split_ifs at listed ⊢
        exact ⟨_, rfl⟩) distinct
    rw [scan.isoOpListDir_eq] at listed
    split_ifs at listed with file
    cases listed
    have isDir : cur.node.isDir = true := by simpa using file
    obtain ⟨rec, mem, eq⟩ := List.mem_filterMap.mp (List.mem_of_mem_take reported)
    obtain ⟨name, named, rfl⟩ := Option.map_eq_some_iff.mp eq
    obtain ⟨ne, clean⟩ := all name (List.mem_filterMap.mpr ⟨rec, mem, named⟩)
    have short := isoRecName_length named
    have whole : (listedAt behind rec name).1.name = name :=
      List.take_of_length_le (by have limit : vfsMaxName = 64 := rfl; omega)
    have node : (foundAt behind' rec).node = isoNodeOf (rec.bytes behind) :=
      (scan.fits rec mem).isoNodeOf_eq
    refine ⟨foundAt behind' rec, ?_, rfl, ?_⟩
    · rw [whole]
      exact found_of_clean scan resolved isDir fit distinct mem named ne clean
    · rw [node]
      exact ⟨rfl, rfl⟩

/-- In a directory, it is so exactly if the directory is clean. -/
theorem dirFaithful_iff (resolved : (isoResolvePath (isoTree vol behind') path).2 = some cur) :
    DirFaithful vol behind behind' path cur.node ↔ CleanDir vol behind cur.node := by
  obtain ⟨recs, code, scan⟩ := isoScanDir_spec vol cur.node
  exact ⟨clean_of_faithful scan, faithful_of_clean scan resolved⟩

end Clean

/-- Decoding stays inside the records of the directory that a path leads to, and what is listed
there is found there, exactly if no name runs out of its record and, in a directory of distinct
names that can be listed, no name is empty or has a slash. -/
theorem iso_dir_iff (vol : IsoVolume) (path : CString) :
    PathFaithful vol path ↔
      ∀ behind behind' cur, (isoResolvePath (isoTree vol behind') path).2 = some cur →
        CleanDir vol behind cur.node := by
  refine forall_congr' fun behind => forall_congr' fun behind' => forall_congr' fun cur => ?_
  exact forall_congr' fun resolved => dirFaithful_iff resolved

/-- A sector with one record, of 34 bytes, whose name should have 200. -/
def overrunSector : Bytes := fun i => if i = 0 then 34 else if i = 32 then 200 else 0

theorem noBlocks_addressable : 0 ≤ 2 ^ 48 := Nat.zero_le _

/-- A CD of such sectors. -/
def overrunVolume : IsoVolume where
  mounted := true
  isAtapi := true
  partitionLba := 0
  useJoliet := false
  rootLba := 0
  rootSize := 2048
  drive := ⟨0, fun _ => some overrunSector, noBlocks_addressable⟩

/-- The name of the record is read from what follows the record. -/
theorem overrun_not_faithful : ¬PathFaithful overrunVolume [slash] := by
  intro faithful
  have root : (isoResolvePath (isoTree overrunVolume fun _ _ => 0) [slash]).2 =
      some ⟨⟨0, 2048, 2⟩, none⟩ := rfl
  have clean := (dirFaithful_iff root).mp (faithful (fun _ _ => 0) (fun _ _ => 0) _ root)
  have byte : ∀ i < 2048, (slice overrunSector 0 2048).getD i 0 = overrunSector i := by
    intro i lt
    rw [List.getD_eq_getElem?_getD, slice, List.getElem?_map, List.getElem?_range lt]
    rw [Option.map_some, Option.getD_some, Nat.zero_add]
  have sector : isoReadSector overrunVolume.toIsoFs overrunVolume.drive 0 =
      some (slice overrunSector 0 2048) := by
    simp [isoReadSector, ataReadCdSectors, IsoDrive.bytes, overrunVolume]
  generalize slice overrunSector 0 2048 = sec at byte sector
  have first : sec.getD 0 0 = 34 := byte 0 (by decide)
  have next : sec.getD 34 0 = 0 := byte 34 (by decide)
  have go : (collectCb ⟨0, 0, sec⟩ []).1 = 0 := rfl
  have scan : isoScanSector collectCb 0 sec (60 + 1 + 1) 0 [] = some (0, [⟨0, 0, sec⟩]) := by
    rw [isoScanSector, if_pos (by decide)]
    dsimp only
    rw [first, if_neg (by decide), if_neg (by decide), if_neg (by decide), go,
      if_neg (by decide), isoScanSector, if_pos (by decide)]
    dsimp only
    change (if (sec.getD 34 0).toNat = 0 then _ else _) = _
    rw [next]
    rfl
  have loop : ∀ fuel, isoScanLoop overrunVolume collectCb (fuel + 1 + 1) 0 2048 [] =
      some (0, [⟨0, 0, sec⟩]) := by
    intro fuel
    rw [isoScanLoop, if_pos (by decide), sector]
    dsimp only
    rw [scan, Option.bind_some]
    dsimp only
    rw [if_neg (by decide), if_neg (by decide), isoScanLoop, if_neg (by decide)]
  have handed : HandsOut overrunVolume ⟨0, 2048, 2⟩ [⟨0, 0, sec⟩] := by
    refine ⟨0, ?_⟩
    rw [isoScanDir, isDir_two, if_neg (by decide)]
    exact loop 2047
  have len : (⟨0, 0, sec⟩ : IsoRec).len = 34 := congrArg UInt8.toNat first
  have inside : ∀ i < 2048, (⟨0, 0, sec⟩ : IsoRec).bytes (fun _ _ => 0) i =
      overrunSector i := by
    intro i lt
    rw [IsoRec.bytes, if_pos (by rw [Nat.zero_add]; exact lt), Nat.zero_add, byte i lt]
  rcases (clean _ handed).1 _ List.mem_cons_self with fits | fits | ⟨j, fits, stop⟩
  · rw [len, isoUnits, inside 32 (by decide)] at fits
    exact absurd fits (by decide)
  · rw [len] at fits
    exact absurd fits (by decide)
  · obtain rfl : j = 0 := by
      rw [len] at fits
      change 1 * (j + 1) ≤ 34 - 33 at fits
      omega
    change (if (⟨0, 0, sec⟩ : IsoRec).bytes (fun _ _ => 0) 33 = semicolon
      then none else some ((⟨0, 0, sec⟩ : IsoRec).bytes (fun _ _ => 0) 33)) =
      none at stop
    rw [inside 33 (by decide), if_neg (by decide)] at stop
    cases stop

end NTux.Fs
