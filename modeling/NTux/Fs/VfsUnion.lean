import NTux.Fs.VfsLayer

/-!
# The union filesystem

`fs/vfs_union.c` stacks a filesystem `a` over a filesystem `b`.  Writes go to `a`;
a read goes to `b` whenever `a` refuses it, whatever the reason; removing and
renaming stop at the first layer that accepts, and leave no trace of it for the
other.

`unionReadFile_showsUpper_iff` states exactly when a read shows the upper layer's
file; removal and renaming are the subject of the next module.

`union_list_dir` reads each layer into a buffer of sixteen entries but loops up
to the count the layer reports; what lies behind the entries a layer stored is
whatever the allocator handed out, and is a parameter of the model.
-/

namespace NTux.Fs

open NTux.Lib

/-- `UNION_TEMP_ENTS`. -/
def unionTempEnts : Nat := 16

/-- The backend tables of a `vfs_union_ctx_t`; the contexts form the state. -/
structure VfsUnion (α β : Type) where
  opsA : VfsBackendOps α
  opsB : VfsBackendOps β

/-- Call `read_file`; a null pointer answers `-1`. -/
def vfsCallReadFile {σ : Type} (ops : VfsBackendOps σ) (s : σ) (path : CString)
    (buffer : Option Nat) : ReadOutcome :=
  match ops.readFile with
  | some readFile => readFile s path buffer
  | none => ⟨-1, none, []⟩

/-- Call `list_dir`; a null pointer answers `-1`. -/
def vfsCallListDir {σ : Type} (ops : VfsBackendOps σ) (s : σ) (path : CString)
    (out : Bool) (maxEntries : Nat) : ListOutcome :=
  match ops.listDir with
  | some listDir => listDir s path out maxEntries
  | none => ⟨-1, none, []⟩

section Model

variable {α β : Type} (u : VfsUnion α β) (s : α × β)

/-- `union_mkdir`. -/
def unionMkdir (path : CString) (mode : Nat) : Int × (α × β) :=
  match u.opsA.mkdir with
  | some mkdir => let r := mkdir s.1 path mode; (r.1, r.2, s.2)
  | none => (-1, s)

/-- `union_create_file`. -/
def unionCreateFile (path : CString) (mode : Nat) (data : List UInt8) : Int × (α × β) :=
  match u.opsA.createFile with
  | some createFile => let r := createFile s.1 path mode data; (r.1, r.2, s.2)
  | none => (-1, s)

/-- `union_write_file`. -/
def unionWriteFile (path : CString) (data : List UInt8) : Int × (α × β) :=
  match u.opsA.writeFile with
  | some writeFile => let r := writeFile s.1 path data; (r.1, r.2, s.2)
  | none => (-1, s)

/-- `union_read_file`: the second call stores over what the first one stored. -/
def unionReadFile (path : CString) (buffer : Option Nat) : ReadOutcome :=
  let first := vfsCallReadFile u.opsA s.1 path buffer
  if first.rc = 0 then first
  else
    let second := vfsCallReadFile u.opsB s.2 path buffer
    ⟨second.rc, second.outLen <|> first.outLen, second.out ++ first.out.drop second.out.length⟩

/-- `"."` or `".."`. -/
def isDotName (name : CString) : Bool := name == [dot] || name == [dot, dot]

/-- The entries a loop up to the reported count reads from a temporary buffer:
those the layer stored, then what the memory behind them holds. -/
def tempEntries (heap : Nat → VfsDirent) (r : ListOutcome) : List VfsDirent :=
  (List.range (r.outCount.getD 0)).map fun i => r.out[i]?.getD (heap i)

/-- The part of `union_list_dir` after both layers have answered. -/
def unionMerge (heapA heapB : Nat → VfsDirent) (ra rb : ListOutcome) (out : Bool)
    (maxEntries : Nat) : ListOutcome :=
  if ra.rc ≠ 0 ∧ rb.rc ≠ 0 then ⟨-1, some 0, []⟩
  else
    let aEnts := tempEntries heapA ra
    let bEnts := tempEntries heapB rb
    let fromA := (aEnts.filter fun e => !isDotName e.name).take maxEntries
    let fromB := (bEnts.filter fun e => !isDotName e.name && !aEnts.any (·.name == e.name)).take
      (maxEntries - fromA.length)
    ⟨0, some (fromA ++ fromB).length, if out then fromA ++ fromB else []⟩

/-- `union_list_dir`; `heap` is what the two allocations return, if they succeed. -/
def unionListDir (heap : Option ((Nat → VfsDirent) × (Nat → VfsDirent))) (path : CString)
    (out : Bool) (maxEntries : Nat) : ListOutcome :=
  match heap with
  | none => ⟨-1, some 0, []⟩
  | some (heapA, heapB) =>
      unionMerge heapA heapB (vfsCallListDir u.opsA s.1 path true unionTempEnts)
        (vfsCallListDir u.opsB s.2 path true unionTempEnts) out maxEntries

/-- `union_exists`. -/
def unionExists (path : CString) : Int :=
  let first := match u.opsA.exists_ with
    | some exists_ => exists_ s.1 path
    | none => 0
  if 0 < first then first
  else
    match u.opsB.exists_ with
    | some exists_ => exists_ s.2 path
    | none => 0

/-- `union_remove`. -/
def unionRemove (path : CString) : Int × (α × β) :=
  let (rc, sa) := match u.opsA.remove with
    | some remove => remove s.1 path
    | none => (-1, s.1)
  if rc = 0 then (0, sa, s.2)
  else
    match u.opsB.remove with
    | some remove => let r := remove s.2 path; (r.1, sa, r.2)
    | none => (-1, sa, s.2)

/-- `union_rename`. -/
def unionRename (oldPath newPath : CString) : Int × (α × β) :=
  let (rc, sa) := match u.opsA.rename with
    | some rename => rename s.1 oldPath newPath
    | none => (-1, s.1)
  if rc = 0 then (0, sa, s.2)
  else
    match u.opsB.rename with
    | some rename => let r := rename s.2 oldPath newPath; (r.1, sa, r.2)
    | none => (-1, sa, s.2)

end Model

/-! ## Reading through the union -/

section Read

variable {α β : Type} {u : VfsUnion α β} {s : α × β} {path p q : CString}
  {ea eb : Option VfsEntry}

/-- The outcome returns the content. -/
def ReadOutcome.Returns (r : ReadOutcome) (buffer : Option Nat) (content : List UInt8) : Prop :=
  r.rc = 0 ∧ r.outLen = some content.length ∧
    (buffer.isSome → r.out.take content.length = content)

theorem readAnswer_returns (buffer : Option Nat) (content : List UInt8) :
    (readAnswer buffer content).Returns buffer content := by
  refine ⟨rfl, rfl, fun given => ?_⟩
  simp [readAnswer, given]

/-- The union's view of the upper layer: where `a` holds a file, a read returns its
content or reports the error that `a` reports; elsewhere it is `b`'s read. -/
def UnionReadShowsUpper (u : VfsUnion α β) (s : α × β) (path : CString) (buffer : Option Nat)
    (ea : Option VfsEntry) : Prop :=
  match ea with
  | some (.file content) =>
      (unionReadFile u s path buffer).Returns buffer content ∨
        ((unionReadFile u s path buffer).rc ≠ 0 ∧
          (unionReadFile u s path buffer).rc = (vfsCallReadFile u.opsA s.1 path buffer).rc ∧
          (unionReadFile u s path buffer).outLen =
            (vfsCallReadFile u.opsA s.1 path buffer).outLen)
  | _ => unionReadFile u s path buffer = vfsCallReadFile u.opsB s.2 path buffer

/-- A read of a file that fits the buffer is the file's content. -/
theorem ReadsAt.file {σ : Type} {ops : VfsBackendOps σ} {t : σ} {content : List UInt8}
    (reads : ReadsAt ops t p (some (.file content))) {buffer : Option Nat}
    (fits : BufferFits buffer content.length) :
    vfsCallReadFile ops t p buffer = readAnswer buffer content := by
  obtain ⟨readFile, eq, answers⟩ := reads
  simpa [vfsCallReadFile, eq] using (answers buffer).1 fits

/-- A read of a file that does not fit reports its length and stores nothing. -/
theorem ReadsAt.tooSmall {σ : Type} {ops : VfsBackendOps σ} {t : σ} {content : List UInt8}
    (reads : ReadsAt ops t p (some (.file content))) {buffer : Option Nat}
    (small : ¬ BufferFits buffer content.length) :
    (vfsCallReadFile ops t p buffer).rc ≠ 0 ∧
      (vfsCallReadFile ops t p buffer).outLen = some content.length ∧
      (vfsCallReadFile ops t p buffer).out = [] := by
  obtain ⟨readFile, eq, answers⟩ := reads
  simpa [vfsCallReadFile, eq] using (answers buffer).2 small

/-- A read where there is no file fails and stores nothing. -/
theorem ReadsAt.noFile {σ : Type} {ops : VfsBackendOps σ} {t : σ} {entry : Option VfsEntry}
    (reads : ReadsAt ops t p entry) (noFile : ∀ content, entry ≠ some (.file content))
    (buffer : Option Nat) :
    (vfsCallReadFile ops t p buffer).rc ≠ 0 ∧ (vfsCallReadFile ops t p buffer).outLen = none ∧
      (vfsCallReadFile ops t p buffer).out = [] := by
  obtain ⟨readFile, eq, answers⟩ := reads
  have answer := answers buffer
  rcases entry with _ | (content | listing)
  · simpa [vfsCallReadFile, eq] using answer
  · exact absurd rfl (noFile content)
  · simpa [vfsCallReadFile, eq] using answer

theorem unionReadFile_of_upper {buffer : Option Nat} {content : List UInt8}
    (upper : vfsCallReadFile u.opsA s.1 path buffer = readAnswer buffer content) :
    unionReadFile u s path buffer = readAnswer buffer content := by
  simp [unionReadFile, upper, readAnswer]

theorem unionReadFile_of_refused {buffer : Option Nat}
    (upper : (vfsCallReadFile u.opsA s.1 path buffer).rc ≠ 0)
    (untouched : (vfsCallReadFile u.opsA s.1 path buffer).out = []) :
    unionReadFile u s path buffer =
      ⟨(vfsCallReadFile u.opsB s.2 path buffer).rc,
        (vfsCallReadFile u.opsB s.2 path buffer).outLen <|>
          (vfsCallReadFile u.opsA s.1 path buffer).outLen,
        (vfsCallReadFile u.opsB s.2 path buffer).out⟩ := by
  simp [unionReadFile, upper, untouched]

/-- **When a union read shows the upper layer.**  It does unless `a` holds a file
that does not fit the buffer; then the answer is `b`'s, which is only right if `b`
happens to report the same error about a file of the same length. -/
theorem unionReadFile_showsUpper_iff (upper : ReadsAt u.opsA s.1 path ea)
    (lower : ReadsAt u.opsB s.2 path eb) (buffer : Option Nat) :
    UnionReadShowsUpper u s path buffer ea ↔
      ∀ content, ea = some (.file content) →
        BufferFits buffer content.length ∨
          ((vfsCallReadFile u.opsB s.2 path buffer).rc =
              (vfsCallReadFile u.opsA s.1 path buffer).rc ∧
            ∀ content', eb = some (.file content') → content'.length = content.length) := by
  by_cases file : ∃ content, ea = some (.file content)
  · obtain ⟨content, rfl⟩ := file
    have only : (∀ c, some (VfsEntry.file content) = some (.file c) →
        BufferFits buffer c.length ∨
          ((vfsCallReadFile u.opsB s.2 path buffer).rc =
              (vfsCallReadFile u.opsA s.1 path buffer).rc ∧
            ∀ c', eb = some (.file c') → c'.length = c.length)) ↔
        BufferFits buffer content.length ∨
          ((vfsCallReadFile u.opsB s.2 path buffer).rc =
              (vfsCallReadFile u.opsA s.1 path buffer).rc ∧
            ∀ c', eb = some (.file c') → c'.length = content.length) := by
      constructor
      · exact fun all => all content rfl
      · rintro one c ⟨⟩
        exact one
    rw [only]
    by_cases fits : BufferFits buffer content.length
    · refine iff_of_true (Or.inl ?_) (Or.inl fits)
      rw [unionReadFile_of_upper (upper.file fits)]
      exact readAnswer_returns buffer content
    obtain ⟨refused, length, untouched⟩ := upper.tooSmall fits
    have answer := unionReadFile_of_refused refused untouched
    simp only [UnionReadShowsUpper, answer, fits, false_or, length]
    -- what is left compares `b`'s answer with `a`'s error
    by_cases lowerFile : ∃ content', eb = some (.file content')
    · obtain ⟨content', rfl⟩ := lowerFile
      by_cases fits' : BufferFits buffer content'.length
      · rw [lower.file fits']
        have different : content'.length ≠ content.length := fun same => fits (same ▸ fits')
        constructor
        · rintro (⟨-, same, -⟩ | ⟨failed, -⟩)
          · exact absurd (by simpa [readAnswer] using same) different
          · exact absurd rfl failed
        · rintro ⟨-, same⟩
          exact absurd (same content' rfl) different
      · obtain ⟨refused', length', -⟩ := lower.tooSmall fits'
        constructor
        · rintro (⟨succeeded, -⟩ | ⟨-, code, same⟩)
          · exact absurd succeeded refused'
          · refine ⟨code, ?_⟩
            rintro c' ⟨⟩
            simpa [length'] using same
        · rintro ⟨code, same⟩
          exact Or.inr ⟨refused', code, by simp [length', same content' rfl]⟩
    · have noFile : ∀ content', eb ≠ some (.file content') := fun c' eq => lowerFile ⟨c', eq⟩
      obtain ⟨refused', length', -⟩ := lower.noFile noFile buffer
      constructor
      · rintro (⟨succeeded, -⟩ | ⟨-, code, -⟩)
        · exact absurd succeeded refused'
        · exact ⟨code, fun c' eq => absurd eq (noFile c')⟩
      · rintro ⟨code, -⟩
        exact Or.inr ⟨refused', code, by simp [length']⟩
  · have noFile : ∀ content, ea ≠ some (.file content) := fun c eq => file ⟨c, eq⟩
    obtain ⟨refused, length, untouched⟩ := upper.noFile noFile buffer
    refine iff_of_true ?_ fun content eq => absurd eq (noFile content)
    have answer : unionReadFile u s path buffer = vfsCallReadFile u.opsB s.2 path buffer := by
      simp [unionReadFile_of_refused refused untouched, length]
    rcases ea with _ | (content | listing)
    · exact answer
    · exact absurd rfl (noFile content)
    · exact answer

end Read

/-- A RAM filesystem over another one. -/
def ramfsUnion : VfsUnion Ramfs Ramfs := ⟨ramfsBackendOps 0, ramfsBackendOps 0⟩

/-- The RAM filesystem after writing the only file, `/f`. -/
def ramfsWithFile (content : List UInt8) : Ramfs :=
  run ramfsStep ramfsInit [.writeFile 0 [slash, 0x66] content]

theorem ramfsWithFile_holdsAt (content : List UInt8) (path : CString) :
    HoldsAt (ramfsBackendOps 0) (ramfsWithFile content) path
      (ramfsLookup (ramfsWithFile content) path) :=
  ramfsBackendOps_holdsAt (ramfs_sized_along_run ⟨_, rfl⟩) 0 path

/-- With room for four bytes, the upper layer's two are read. -/
theorem unionReadFile_showsUpper_roomy :
    UnionReadShowsUpper ramfsUnion (ramfsWithFile [1, 2], ramfsWithFile [3]) [slash, 0x66]
      (some 4) (some (.file [1, 2])) :=
  (unionReadFile_showsUpper_iff (u := ramfsUnion)
    (s := (ramfsWithFile [1, 2], ramfsWithFile [3])) (ramfsWithFile_holdsAt _ _).reads
    (ramfsWithFile_holdsAt _ _).reads (some 4)).2 (by
      rintro content ⟨⟩
      exact Or.inl (by rintro cap ⟨⟩; decide))

/-- With room for one byte, the lower layer's file is read in place of the upper
layer's. -/
theorem unionReadFile_stale :
    ¬ ∀ (as bs : List RamfsAction) (path : CString) (buffer : Option Nat),
      UnionReadShowsUpper ramfsUnion (run ramfsStep ramfsInit as, run ramfsStep ramfsInit bs)
        path buffer (ramfsLookup (run ramfsStep ramfsInit as) path) := by
  intro always
  rcases always [.writeFile 0 [slash, 0x66] [1, 2]] [.writeFile 0 [slash, 0x66] [3]]
    [slash, 0x66] (some 1) with ⟨-, length, -⟩ | ⟨failed, -⟩
  · exact absurd length (by decide)
  · exact failed (by decide)

end NTux.Fs
