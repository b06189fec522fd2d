import NTux.Elf.Loader

/-!
# Loading is exact and confined

A segment that is loaded has passed every check (`copyLoadSegment_loaded`), and the loop
paints the segments one over the other (`loadSegments_spec`).  What they leave is what the
image describes (`paint_eq`).
-/

namespace NTux.Elf

open NTux.Lib NTux.Lib.Bytes

variable {img : Image} {ph : Phdr} {s s' : LoadState} {mem : Nat → UInt8} {eh : Ehdr}

theorem rangeAdd_eq_some {base len r : Nat} (eq : rangeAdd base len = some r) : r = base + len := by
  unfold rangeAdd at eq
  split at eq
  · cases eq
  · exact (Option.some.inj eq).symm

/-! ## One segment -/

/-- A segment over an address space. -/
def paintOne (img : Image) (mem : Nat → UInt8) (ph : Phdr) : Nat → UInt8 := fun a =>
  if ph.loads && ph.covers a then ph.byteAt img a else mem a

/-- What stays true of a state: its accesses are confined, and the kernel's half is as it
was. -/
structure Confined (img : Image) (mem : Nat → UInt8) (s : LoadState) : Prop where
  log : ∀ x ∈ s.log, x.Confined img
  high : ∀ a, userVaddrMax ≤ a → s.mem a = mem a

theorem Confined.reads {offset len : Nat} (ok : Confined img mem s)
    (inside : offset + len ≤ img.size) : Confined img mem (s.reads offset len) := by
  refine ⟨fun x mem => ?_, ok.high⟩
  rcases List.mem_append.1 mem with old | new
  · exact ok.log x old
  · obtain rfl := List.mem_singleton.1 new
    exact inside

theorem Confined.memcpy {dest offset len : Nat} (ok : Confined img mem s)
    (source : offset + len ≤ img.size) (target : dest + len ≤ userVaddrMax) :
    Confined img mem (memcpy img s dest offset len) := by
  refine ⟨fun x mem => ?_, fun a high => ?_⟩
  · rcases List.mem_append.1 mem with old | new
    · exact ok.log x old
    · rcases List.mem_cons.1 new with rfl | write
      · exact source
      · obtain rfl := List.mem_singleton.1 write
        exact target
  · show (if dest ≤ a ∧ a < dest + len then _ else _) = _
    rw [if_neg (by omega)]
    exact ok.high a high

theorem Confined.memset0 {dest len : Nat} (ok : Confined img mem s)
    (target : dest + len ≤ userVaddrMax) : Confined img mem (memset0 s dest len) := by
  refine ⟨fun x mem => ?_, fun a high => ?_⟩
  · rcases List.mem_append.1 mem with old | new
    · exact ok.log x old
    · obtain rfl := List.mem_singleton.1 new
      exact target
  · show (if dest ≤ a ∧ a < dest + len then _ else _) = _
    rw [if_neg (by omega)]
    exact ok.high a high

/-- A segment that fails leaves no trace. -/
theorem copyLoadSegment_failed (eq : copyLoadSegment ph img s = (.failed, s')) : s' = s := by
  unfold copyLoadSegment at eq
  repeat' split at eq
  all_goals first
    | exact (Prod.mk.inj eq).2.symm
    | exact absurd (Prod.mk.inj eq).1 (by decide)

/-- A segment that is skipped takes up no memory. -/
theorem copyLoadSegment_skipped (eq : copyLoadSegment ph img s = (.skipped, s')) :
    s' = s ∧ ph.loads = false := by
  unfold copyLoadSegment at eq
  split at eq
  next other =>
    refine ⟨(Prod.mk.inj eq).2.symm, ?_⟩
    unfold Phdr.loads
    rw [decide_eq_false other, Bool.false_and]
  split at eq
  · exact absurd (Prod.mk.inj eq).1 (by decide)
  split at eq
  · exact absurd (Prod.mk.inj eq).1 (by decide)
  split at eq
  · exact absurd (Prod.mk.inj eq).1 (by decide)
  split at eq
  next empty =>
    refine ⟨(Prod.mk.inj eq).2.symm, ?_⟩
    unfold Phdr.loads
    simp [empty]
  split at eq
  · exact absurd (Prod.mk.inj eq).1 (by decide)
  split at eq
  · exact absurd (Prod.mk.inj eq).1 (by decide)
  · exact absurd (Prod.mk.inj eq).1 (by decide)

/-- What a segment that is loaded has passed, and what it leaves. -/
theorem copyLoadSegment_loaded (eq : copyLoadSegment ph img s = (.loaded, s')) :
    ph.loads = true ∧ ph.vaddr + ph.memsz ≤ userVaddrMax ∧ s'.mem = paintOne img s.mem ph ∧
      ∀ mem, Confined img mem s → Confined img mem s' := by
  unfold copyLoadSegment at eq
  split at eq
  · exact absurd (Prod.mk.inj eq).1 (by decide)
  next load =>
    split at eq
    · exact absurd (Prod.mk.inj eq).1 (by decide)
    next sizes =>
      split at eq
      · exact absurd (Prod.mk.inj eq).1 (by decide)
      next srcEnd source =>
        split at eq
        · exact absurd (Prod.mk.inj eq).1 (by decide)
        next inside =>
          split at eq
          · exact absurd (Prod.mk.inj eq).1 (by decide)
          next some =>
            split at eq
            · exact absurd (Prod.mk.inj eq).1 (by decide)
            next segEnd target =>
              split at eq
              · exact absurd (Prod.mk.inj eq).1 (by decide)
              next user =>
                obtain rfl := rangeAdd_eq_some source
                obtain rfl := rangeAdd_eq_some target
                obtain rfl := (Prod.mk.inj eq).2
                have loads : ph.loads = true := by
                  unfold Phdr.loads
                  rw [decide_eq_true (not_not.1 load), decide_eq_true some]
                  rfl
                refine ⟨loads, by omega, ?_, fun mem ok => ?_⟩
                · funext a
                  unfold paintOne Phdr.covers Phdr.byteAt
                  rw [loads, Bool.true_and]
                  split
                  next zeroes =>
                    show (if _ ∧ _ then _ else if _ ∧ _ then _ else _) = _
                    by_cases covered : ph.vaddr ≤ a ∧ a < ph.vaddr + ph.memsz
                    · rw [decide_eq_true covered.1, decide_eq_true covered.2, Bool.and_self,
                        if_pos rfl]
                      by_cases file : a < ph.vaddr + ph.filesz
                      · rw [if_neg (by omega), if_pos ⟨covered.1, file⟩, if_pos file]
                      · rw [if_pos (by omega), if_neg file]
                    · rw [if_neg (by omega), if_neg (by omega), if_neg (by simpa using covered)]
                  next full =>
                    show (if _ ∧ _ then _ else _) = _
                    by_cases covered : ph.vaddr ≤ a ∧ a < ph.vaddr + ph.memsz
                    · rw [decide_eq_true covered.1, decide_eq_true covered.2, Bool.and_self,
                        if_pos rfl, if_pos (by omega), if_pos (by omega)]
                    · rw [if_neg (by omega), if_neg (by simpa using covered)]
                · have copied : Confined img mem (memcpy img s ph.vaddr ph.offset ph.filesz) :=
                    ok.memcpy (Nat.not_lt.1 inside) (by omega)
                  split
                  · exact copied.memset0 (by omega)
                  · exact copied

/-! ## The table -/

/-- The program headers from an offset on. -/
def phdrsFrom (img : Image) (n o : Nat) : List Phdr :=
  (List.range n).map fun i => phdrAt img.bytes (o + i * phdrSize)

theorem phdrsFrom_succ (n o : Nat) :
    phdrsFrom img (n + 1) o = phdrAt img.bytes o :: phdrsFrom img n (o + phdrSize) := by
  unfold phdrsFrom
  rw [List.range_succ_eq_map, List.map_cons, List.map_map, Nat.zero_mul, Nat.add_zero]
  congr 1
  refine List.map_congr_left fun i _ => ?_
  show phdrAt img.bytes (o + (i + 1) * phdrSize) = _
  congr 1
  rw [Nat.add_mul, Nat.one_mul]
  omega

/-- Segments one over the other. -/
def paint (img : Image) (mem : Nat → UInt8) (phs : List Phdr) : Nat → UInt8 :=
  phs.foldl (paintOne img) mem

/-- The last segment that covers an address decides. -/
theorem paint_eq (phs : List Phdr) (mem : Nat → UInt8) (a : Nat) :
    paint img mem phs a =
      match phs.reverse.find? fun ph => ph.loads && ph.covers a with
      | some ph => ph.byteAt img a
      | none => mem a := by
  induction phs generalizing mem with
  | nil => rfl
  | cons ph phs ih =>
      show paint img (paintOne img mem ph) phs a = _
      rw [ih, List.reverse_cons, List.find?_append]
      cases found : phs.reverse.find? fun ph => ph.loads && ph.covers a with
      | some last => rfl
      | none =>
          rw [Option.none_or, List.find?_singleton]
          unfold paintOne
          cases ph.loads && ph.covers a with
          | true => rfl
          | false => rfl

/-- The loop stays confined, and when it runs to its end it has painted every segment, and
the entry lies in one of them where it says so. -/
theorem loadSegments_spec {n o count : Nat} {inSegment : Bool} {r : Option (Nat × Bool)}
    (eq : loadSegments img eh n o count inSegment s = (r, s'))
    (table : o + n * phdrSize ≤ img.size) :
    (∀ mem, Confined img mem s → Confined img mem s') ∧
      ∀ c b, r = some (c, b) → s'.mem = paint img s.mem (phdrsFrom img n o) ∧
        (b = true → inSegment = true ∨
          ∃ ph ∈ phdrsFrom img n o, ph.loads = true ∧ ph.covers eh.entry = true) := by
  induction n generalizing o count inSegment s with
  | zero =>
      obtain ⟨rfl, rfl⟩ := Prod.mk.inj eq
      refine ⟨fun _ ok => ok, fun c b same => ⟨rfl, fun inside => .inl ?_⟩⟩
      cases same
      exact inside
  | succ n ih =>
      have rest : o + phdrSize + n * phdrSize ≤ img.size := by
        rw [Nat.add_mul, Nat.one_mul] at table
        omega
      have header : o + phdrSize ≤ img.size := by omega
      unfold loadSegments at eq
      dsimp only at eq
      rw [phdrsFrom_succ]
      cases copied : copyLoadSegment (phdrAt img.bytes o) img (s.reads o phdrSize) with
      | mk result t =>
          rw [copied] at eq
          cases result with
          | failed =>
              obtain ⟨rfl, rfl⟩ := Prod.mk.inj eq
              rw [copyLoadSegment_failed copied]
              exact ⟨fun _ ok => ok.reads header, fun c b same => by cases same⟩
          | skipped =>
              obtain ⟨rfl, none⟩ := copyLoadSegment_skipped copied
              obtain ⟨confined, done⟩ := ih eq rest
              refine ⟨fun mem ok => confined mem (ok.reads header), fun c b same => ?_⟩
              obtain ⟨memory, inside⟩ := done c b same
              refine ⟨?_, fun yes => ?_⟩
              · have blank : paintOne img s.mem (phdrAt img.bytes o) = s.mem := by
                  funext a
                  unfold paintOne
                  rw [none, Bool.false_and]
                  rfl
                rw [memory]
                show _ = paint img (paintOne img s.mem _) _
                rw [blank]
                rfl
              · rcases inside yes with old | ⟨ph, mem, covers⟩
                · exact .inl old
                · exact .inr ⟨ph, List.mem_cons_of_mem _ mem, covers⟩
          | loaded =>
              obtain ⟨loads, user, memory₁, confined₁⟩ := copyLoadSegment_loaded copied
              obtain ⟨confined, done⟩ := ih eq rest
              refine ⟨fun mem ok => confined mem (confined₁ mem (ok.reads header)),
                fun c b same => ?_⟩
              obtain ⟨memory, inside⟩ := done c b same
              refine ⟨?_, fun yes => ?_⟩
              · rw [memory, memory₁]
                rfl
              · rcases inside yes with old | ⟨ph, mem, covers⟩
                · split at old
                  next entry =>
                    have small := Nat.lt_of_le_of_lt user (by decide : userVaddrMax < 2 ^ 64)
                    rw [Nat.mod_eq_of_lt small] at entry
                    refine .inr ⟨_, List.mem_cons_self .., loads, ?_⟩
                    unfold Phdr.covers
                    rw [decide_eq_true entry.1, decide_eq_true entry.2]
                    rfl
                  · exact .inl old
                · exact .inr ⟨ph, List.mem_cons_of_mem _ mem, covers⟩

/-! ## The image -/

theorem validatePhdrTable_end {size : Nat} (valid : validatePhdrTable eh size = true) :
    eh.phoff + eh.phnum * phdrSize ≤ size := by
  unfold validatePhdrTable at valid
  split at valid
  · cases valid
  split at valid
  · cases valid
  next entsize =>
    split at valid
    · cases valid
    split at valid
    · cases valid
    split at valid
    · cases valid
    next tableEnd added =>
      obtain rfl := rangeAdd_eq_some added
      rw [not_not.1 entsize] at valid
      exact of_decide_eq_true valid

/-- Whatever the image: every read lies inside it and every write below the end of the
user's half, and nothing else changes.  Where the load succeeds, the address space is the
one the image describes, and the entry is its entry and lies in a segment. -/
theorem elf_load_exact (img : Image) (mem : Nat → UInt8) :
    (∀ x ∈ (loadElfImage img mem).2.log, x.Confined img) ∧
      (∀ a, userVaddrMax ≤ a → (loadElfImage img mem).2.mem a = mem a) ∧
      ∀ entry, (loadElfImage img mem).1 = some entry →
        (loadElfImage img mem).2.mem = specMemory img mem ∧
          entry = (ehdrOf img.bytes).entry ∧
          ∃ ph ∈ phdrsOf img, ph.type = ptLoad ∧ ph.memsz ≠ 0 ∧ ph.covers entry = true := by
  have start : Confined img mem ⟨mem, []⟩ := ⟨by simp, fun _ _ => rfl⟩
  unfold loadElfImage
  split
  · exact ⟨start.log, start.high, fun _ same => by cases same⟩
  next long =>
    have read : Confined img mem (LoadState.reads ⟨mem, []⟩ 0 ehdrSize) :=
      start.reads (by omega)
    dsimp only
    split
    · exact ⟨read.log, read.high, fun _ same => by cases same⟩
    split
    · exact ⟨read.log, read.high, fun _ same => by cases same⟩
    next valid =>
      have table := validatePhdrTable_end (by simpa using valid)
      split
      next s' failed =>
        have ok := (loadSegments_spec failed table).1 mem read
        exact ⟨ok.log, ok.high, fun _ same => by cases same⟩
      next count inSegment s' done =>
        obtain ⟨confined, finish⟩ := loadSegments_spec done table
        have ok := confined mem read
        obtain ⟨memory, inside⟩ := finish count inSegment rfl
        split
        · exact ⟨ok.log, ok.high, fun _ same => by cases same⟩
        next loaded =>
          refine ⟨ok.log, ok.high, fun entry same => ?_⟩
          obtain rfl := Option.some.inj same
          rw [not_or] at loaded
          refine ⟨?_, rfl, ?_⟩
          · rw [memory]
            funext a
            exact paint_eq _ mem a
          · rcases inside (by simpa using loaded.2) with early | ⟨ph, memPh, loads, covers⟩
            · cases early
            · unfold Phdr.loads at loads
              rw [Bool.and_eq_true, decide_eq_true_eq, decide_eq_true_eq] at loads
              exact ⟨ph, memPh, loads.1, loads.2, covers⟩

end NTux.Elf
