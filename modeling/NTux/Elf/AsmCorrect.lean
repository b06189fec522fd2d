import NTux.Elf.AsmPasses

/-!
# What the assembler writes

The code that `compile_source` writes is the encodings of the instructions and the literal
pool (`assemble`), where the text is read as it is meant (`ReadsRight`).  A line is cut to 127
bytes, its operands are put in small letters and its numbers wrap around, and labels are cut
to 31 bytes, so not every text is; `asm_wrong_label` is one that is not.
-/

namespace NTux.Elf.Asm

open NTux.Lib.Fields

variable {code code' : Nat → UInt8} {x y : Pass} {P : List Stmt}

/-! ## The passes over a program -/

/-- The names of the table of labels are cut. -/
def cutLabels (labels : List (CString × Nat)) : List (CString × Nat) :=
  labels.map fun l => (l.1.take 31, l.2)

/-- What the second pass writes for a program. -/
def stagedAll (labels : List (CString × Nat)) : Nat → List Stmt → List UInt8
  | _, [] => []
  | off, .label _ :: P => stagedAll labels off P
  | off, .instr i :: P => staged labels off i ++ stagedAll labels (off + i.size) P

/-- The references of the prints of a program. -/
def refsAll : Nat → List Stmt → List PrintRef
  | _, [] => []
  | off, .label _ :: P => refsAll off P
  | off, .instr i :: P => refs off i ++ refsAll (off + i.size) P

theorem stagedAll_length (labels : List (CString × Nat)) (off : Nat) (P : List Stmt) :
    (stagedAll labels off P).length = codeSize P := by
  induction P generalizing off with
  | nil => rfl
  | cons s P ih =>
      cases s with
      | label name => exact ih off
      | instr i => rw [stagedAll, List.length_append, staged_length, ih]; rfl

theorem encodeAll_length (find : CString → Option Nat) (addr off : Nat) (P : List Stmt) :
    (encodeAll find addr off P).length = codeSize P := by
  induction P generalizing addr off with
  | nil => rfl
  | cons s P ih =>
      cases s with
      | label name => exact ih addr off
      | instr i => rw [encodeAll, List.length_append, encode_length, ih]; rfl

/-- What the first pass does. -/
structure FirstRun (x y : Pass) (P : List Stmt) : Prop where
  codeLen : y.codeLen = x.codeLen + codeSize P
  room : y.codeLen ≤ maxCode
  same : SameOutside x.codeLen y.codeLen x.code y.code
  labels : y.labels = x.labels ++ cutLabels (labelsFrom x.codeLen P)
  litTotal : y.litTotal = x.litTotal + (pool P).length

theorem firstRun (room : x.codeLen ≤ maxCode) (eq : P.foldlM (passStmt false) x = some y) :
    FirstRun x y P := by
  induction P generalizing x with
  | nil =>
      obtain rfl := Option.some.inj eq
      exact ⟨rfl, room, .refl _ _ _, (List.append_nil _).symm, rfl⟩
  | cons s P ih =>
      rw [List.foldlM_cons, Option.bind_eq_bind, Option.bind_eq_some_iff] at eq
      obtain ⟨z, step, rest⟩ := eq
      cases s with
      | label name =>
          simp only [passStmt, Bool.false_eq_true, if_false, Option.ite_none_left_eq_some,
            Option.some.injEq] at step
          obtain ⟨-, rfl⟩ := step
          obtain ⟨codeLen, room', same, labels, litTotal⟩ :=
            ih (x := ⟨x.code, x.codeLen, x.labels ++ [(name.take 31, x.codeLen)], x.prints,
              x.litTotal⟩) room rest
          exact ⟨codeLen, room', same, by rw [labels, List.append_assoc]; rfl, litTotal⟩
      | instr i =>
          have first := passInstr_first room step
          obtain ⟨codeLen, room', same, labels, litTotal⟩ := ih first.room rest
          have end' := first.codeLen
          refine ⟨?_, room', ?_, ?_, ?_⟩
          · rw [codeLen, end', codeSize, Nat.add_assoc]
          · exact first.same.trans same (by omega) (by omega)
          · rw [labels, first.labels, end']
            rfl
          · rw [litTotal, first.litTotal, pool, List.length_append, Nat.add_assoc]

/-- The labels that the jumps of a program name. -/
def jumpLabels (P : List Stmt) : List CString :=
  P.filterMap fun s => match s with
    | .instr (.jump _ name) => some name
    | _ => none

/-- What the second pass does. -/
structure SecondRun (x y : Pass) (P : List Stmt) : Prop where
  codeLen : y.codeLen = x.codeLen + codeSize P
  room : y.codeLen ≤ maxCode
  same : SameOutside x.codeLen y.codeLen x.code y.code
  prints : y.prints = x.prints ++ refsAll x.codeLen P
  holds : Holds y.code x.codeLen (stagedAll x.labels x.codeLen P)
  found : ∀ name ∈ jumpLabels P, (findLabel x.labels name).isSome

theorem secondRun (room : x.codeLen ≤ maxCode) (eq : P.foldlM (passStmt true) x = some y) :
    SecondRun x y P := by
  induction P generalizing x with
  | nil =>
      obtain rfl := Option.some.inj eq
      exact ⟨rfl, room, .refl _ _ _, (List.append_nil _).symm,
        fun j lt => absurd lt (Nat.not_lt_zero _), fun _ mem => absurd mem List.not_mem_nil⟩
  | cons s P ih =>
      rw [List.foldlM_cons, Option.bind_eq_bind, Option.bind_eq_some_iff] at eq
      obtain ⟨z, step, rest⟩ := eq
      cases s with
      | label name =>
          obtain rfl := Option.some.inj step
          have same := ih room rest
          exact ⟨same.codeLen, same.room, same.same, same.prints, same.holds, same.found⟩
      | instr i =>
          have second := passInstr_second room step
          obtain ⟨codeLen, room', same, prints, holds, found⟩ := ih second.room rest
          have end' := second.codeLen
          rw [second.labels] at holds found
          refine ⟨?_, room', ?_, ?_, ?_, ?_⟩
          · rw [codeLen, end', codeSize, Nat.add_assoc]
          · exact second.same.trans same (by omega) (by omega)
          · rw [prints, second.prints, end', List.append_assoc]
            rfl
          · have first : Holds y.code x.codeLen (staged x.labels x.codeLen i) :=
              second.holds.frame same (.inl (Nat.le_of_eq (by rw [staged_length, end'])))
            refine first.append ?_
            rw [staged_length, ← end']
            exact holds
          · intro name mem
            unfold jumpLabels at mem found
            rw [List.filterMap_cons] at mem
            split at mem
            · exact found name mem
            next named =>
              rcases List.mem_cons.1 mem with rfl | later
              · split at named
                next op name' jump =>
                  obtain rfl := Option.some.inj named
                  exact second.found op name' (Stmt.instr.inj jump)
                · cases named
              · exact found name later

/-! ## The literals -/

/-- The bytes of a print behind its first operand and its second one. -/
theorem encode_print (find : CString → Option Nat) (addr off : Nat) (text : List UInt8)
    (nl : Bool) : encode find addr off (.print text nl) =
      (movCode 0 0 ++ [0x48, 0xBF]) ++ (le 8 addr ++ ([0x48, 0xBE] ++
        (le 8 (literal text nl).length ++ [0x0F, 0x05]))) := by
  simp [encode, movCode]

theorem staged_print (labels : List (CString × Nat)) (off : Nat) (text : List UInt8)
    (nl : Bool) : staged labels off (.print text nl) =
      (movCode 0 0 ++ [0x48, 0xBF]) ++ (le 8 0 ++ ([0x48, 0xBE] ++
        (le 8 0 ++ [0x0F, 0x05]))) := by
  simp [staged, movCode]

/-- The operands of a print are filled in. -/
theorem holds_print {labels : List (CString × Nat)} {find : CString → Option Nat} {o addr : Nat}
    {text : List UInt8} {nl : Bool} (holds : Holds code o (staged labels o (.print text nl))) :
    Holds (wr (wr code (o + 12) (le 8 addr)) (o + 22) (le 8 (literal text nl).length)) o
      (encode find addr o (.print text nl)) := by
  have first := wr_outside code (o + 12) (le 8 addr)
  have second := wr_outside (wr code (o + 12) (le 8 addr)) (o + 22) (le 8 (literal text nl).length)
  rw [le_length] at first second
  rw [staged_print] at holds
  rw [encode_print]
  have front : (movCode 0 0 ++ [0x48, 0xBF]).length = 12 := by decide
  have rest := holds.right
  rw [front] at rest
  have tail := rest.right.right
  have op := rest.right.left
  rw [le_length] at op tail
  have last := tail.right
  rw [le_length] at last
  refine ((holds.left.frame first (.inl (Nat.le_of_eq (by rw [front])))).frame second
    (.inl (by rw [front]; omega))).append ?_
  rw [front]
  refine ((wr_holds code _ _).frame second (.inl (by rw [le_length]; omega))).append ?_
  rw [le_length]
  refine ((op.frame first (.inr (Nat.le_refl _))).frame second (.inl (Nat.le_refl _))).append ?_
  refine (wr_holds _ _ _).append ?_
  rw [le_length]
  exact (last.frame first (.inr (by simp only [List.length_cons, List.length_nil]; omega))).frame
    second (.inr (Nat.le_refl _))

/-- What the loop over the prints of a program does to the code from `off` on, with literals
from `codeLen + lit` on. -/
structure Placed (find : CString → Option Nat) (codeLen off lit : Nat) (code code' : Nat → UInt8)
    (len : Nat) (P : List Stmt) : Prop where
  stop : len = codeLen + lit + (pool P).length
  room : codeLen + lit ≤ maxCode → len ≤ maxCode
  written : Holds code' off (encodeAll find (codeBase + codeLen + lit) off P)
  literals : Holds code' (codeLen + lit) (pool P)
  same : ∀ j, j < off ∨ off + codeSize P ≤ j → j < codeLen + lit ∨ len ≤ j → code' j = code j

/-- The code with the operands of the print at `off` filled in, and its literal at `stop`. -/
def patchPrint (code : Nat → UInt8) (off stop addr : Nat) (text : List UInt8) : Nat → UInt8 :=
  wr (wr (wr code (off + 12) (le 8 addr)) (off + 22) (le 8 text.length)) stop text

/-- The operands lie in the print, and the literal at `stop`. -/
theorem patchPrint_outside {off stop addr : Nat} {text : List UInt8} {j : Nat}
    (operands : j < off + 12 ∨ off + 30 ≤ j) (behind : j < stop ∨ stop + text.length ≤ j) :
    patchPrint code off stop addr text j = code j := by
  unfold patchPrint
  rw [wr_outside _ _ _ j behind, wr_outside _ _ _ j (by rw [le_length]; omega),
    wr_outside _ _ _ j (by rw [le_length]; omega)]

/-- A print in front: its operands are filled in, its literal is the first of the pool. -/
theorem Placed.print {labels : List (CString × Nat)} {codeLen off lit len : Nat}
    {text : List UInt8} {nl : Bool} (first : Holds code off (staged labels off (.print text nl)))
    (inside : off + 32 + codeSize P ≤ codeLen)
    (room : codeLen + (lit + (literal text nl).length) ≤ maxCode)
    (after : Placed (findLabel labels) codeLen (off + 32) (lit + (literal text nl).length)
      (patchPrint code off (codeLen + lit) (codeBase + codeLen + lit) (literal text nl)) code'
      len P) :
    Placed (findLabel labels) codeLen off lit code code' len (.instr (.print text nl) :: P) := by
  have size : Instr.size (.print text nl) = 32 := rfl
  have poolEq : Asm.pool (.instr (.print text nl) :: P) = literal text nl ++ Asm.pool P := rfl
  have litEq : Instr.literal (.print text nl) = literal text nl := rfl
  have printed : Holds _ off
      (encode (findLabel labels) (codeBase + codeLen + lit) off (.print text nl)) :=
    holds_print first
  have filled := printed.frame (wr_outside _ (codeLen + lit) (literal text nl))
    (.inl (by rw [encode_length, size]; omega))
  have stored := wr_holds (wr (wr code (off + 12) (le 8 (codeBase + codeLen + lit))) (off + 22)
    (le 8 (literal text nl).length)) (codeLen + lit) (literal text nl)
  have stop := after.stop
  refine ⟨?_, fun _ => after.room room, ?_, ?_, fun j out out' => ?_⟩
  · rw [stop, poolEq, List.length_append]
    omega
  · refine Holds.append (fun j lt => ?_) ?_
    · rw [encode_length, size] at lt
      rw [after.same _ (.inl (by omega)) (.inl (by omega))]
      exact filled j (by rw [encode_length, size]; exact lt)
    · have written := after.written
      rw [← Nat.add_assoc] at written
      rw [encode_length, size, litEq]
      exact written
  · rw [poolEq]
    refine Holds.append (fun j lt => ?_) (by rw [Nat.add_assoc]; exact after.literals)
    rw [after.same _ (.inr (by omega)) (.inl (by omega))]
    exact stored j lt
  · unfold codeSize at out
    rw [size] at out
    rw [after.same j (by omega) (by omega), patchPrint_outside (by omega) (by omega)]

/-- An instruction without an operand in the pool in front: it stands as the second pass has
left it. -/
theorem Placed.other {labels : List (CString × Nat)} {codeLen off lit len : Nat} {i : Instr}
    (noPrint : ∀ text nl, i ≠ .print text nl) (first : Holds code off (staged labels off i))
    (inside : off + i.size + codeSize P ≤ codeLen)
    (after : Placed (findLabel labels) codeLen (off + i.size) lit code code' len P) :
    Placed (findLabel labels) codeLen off lit code code' len (.instr i :: P) := by
  have noPool : i.literal = [] := by
    cases i <;> first | rfl | exact absurd rfl (noPrint _ _)
  have sameCode : ∀ addr, encode (findLabel labels) addr off i = staged labels off i := by
    intro addr
    cases i <;> first | rfl | exact absurd rfl (noPrint _ _)
  have poolEq : Asm.pool (.instr i :: P) = Asm.pool P := by
    rw [Asm.pool, noPool, List.nil_append]
  refine ⟨by rw [poolEq]; exact after.stop, after.room, ?_, by rw [poolEq]; exact after.literals,
    fun j out out' => after.same j (by unfold codeSize at out; omega) out'⟩
  refine Holds.append (fun j lt => ?_) ?_
  · rw [encode_length] at lt
    rw [after.same _ (.inl (by omega)) (.inl (by omega))]
    simp only [sameCode]
    exact first j (by rw [staged_length]; exact lt)
  · rw [encode_length, noPool, List.length_nil, Nat.add_zero]
    exact after.written

theorem placed {labels : List (CString × Nat)} {codeLen off lit len : Nat}
    (inside : off + codeSize P ≤ codeLen) (holds : Holds code off (stagedAll labels off P))
    (eq : placeLiterals codeLen lit code (refsAll off P) = some (code', len)) :
    Placed (findLabel labels) codeLen off lit code code' len P := by
  induction P generalizing off lit code with
  | nil =>
      obtain ⟨rfl, rfl⟩ := Prod.mk.inj (Option.some.inj eq)
      exact ⟨rfl, id, fun j lt => absurd lt (Nat.not_lt_zero _),
        fun j lt => absurd lt (Nat.not_lt_zero _), fun _ _ _ => rfl⟩
  | cons s P ih =>
      cases s with
      | label name =>
          have same := ih inside holds eq
          exact ⟨same.stop, same.room, same.written, same.literals, same.same⟩
      | instr i =>
          have first : Holds code off (staged labels off i) := holds.left
          have rest : Holds code (off + i.size) (stagedAll labels (off + i.size) P) := by
            have right := holds.right
            rwa [staged_length] at right
          unfold codeSize at inside
          by_cases isPrint : ∃ text nl, i = .print text nl
          · obtain ⟨text, nl, rfl⟩ := isPrint
            have size : Instr.size (.print text nl) = 32 := rfl
            rw [size] at inside rest
            simp only [refsAll, refs, List.singleton_append, placeLiterals] at eq
            split at eq
            · cases eq
            next room =>
              rw [size] at eq
              -- what is behind the print is still as the second pass left it
              refine Placed.print first (by omega) (by omega) (ih (by omega) (fun j lt => ?_) eq)
              rw [stagedAll_length] at lt
              have place := rest j (by rw [stagedAll_length]; exact lt)
              exact (patchPrint_outside (by omega) (.inl (by omega))).trans place
          · have noPrint : ∀ text nl, i ≠ .print text nl := fun text nl eq => isPrint ⟨text, nl, eq⟩
            have noRefs : refs off i = [] := by
              cases i <;> first | rfl | exact absurd rfl (noPrint _ _)
            rw [refsAll, noRefs, List.nil_append] at eq
            exact Placed.other noPrint first (by omega) (ih (by omega) rest eq)

/-! ## Places in the code -/

theorem codeSize_append (P Q : List Stmt) : codeSize (P ++ Q) = codeSize P + codeSize Q := by
  induction P with
  | nil => exact (Nat.zero_add _).symm
  | cons s P ih =>
      cases s with
      | label name => exact ih
      | instr i =>
          show i.size + codeSize (P ++ Q) = i.size + codeSize P + codeSize Q
          rw [ih, Nat.add_assoc]

theorem pool_append (P Q : List Stmt) : pool (P ++ Q) = pool P ++ pool Q := by
  induction P with
  | nil => rfl
  | cons s P ih =>
      cases s with
      | label name => exact ih
      | instr i =>
          show i.literal ++ pool (P ++ Q) = i.literal ++ pool P ++ pool Q
          rw [ih, List.append_assoc]

theorem encodeAll_append (find : CString → Option Nat) (addr off : Nat) (P Q : List Stmt) :
    encodeAll find addr off (P ++ Q) = encodeAll find addr off P ++
      encodeAll find (addr + (pool P).length) (off + codeSize P) Q := by
  induction P generalizing addr off with
  | nil => rfl
  | cons s P ih =>
      cases s with
      | label name => exact ih addr off
      | instr i =>
          show encode find addr off i ++ encodeAll find _ _ (P ++ Q) = _
          rw [ih, encodeAll, List.append_assoc, pool, List.length_append, codeSize, Nat.add_assoc,
            Nat.add_assoc]

/-- The encoding of an instruction is behind those of the instructions before it, and its
literal behind theirs. -/
theorem assemble_instr {P₁ P₂ : List Stmt} {i : Instr} (eq : P = P₁ ++ .instr i :: P₂) :
    ((assemble P).drop (codeSize P₁)).take i.size =
        encode (findLabel (labelsFrom 0 P)) (codeBase + codeSize P + (pool P₁).length)
          (codeSize P₁) i ∧
      ((assemble P).drop (codeSize P + (pool P₁).length)).take i.literal.length = i.literal := by
  unfold assemble
  generalize findLabel (labelsFrom 0 P) = find
  generalize addr : codeBase + codeSize P = base
  have split : encodeAll find base 0 P = encodeAll find base 0 P₁ ++
      (encode find (base + (pool P₁).length) (codeSize P₁) i ++
        encodeAll find (base + (pool P₁).length + i.literal.length) (codeSize P₁ + i.size) P₂) := by
    rw [eq, encodeAll_append, Nat.zero_add]
    rfl
  have length := encodeAll_length find base 0 P
  constructor
  · rw [split, List.append_assoc,
      List.drop_append_of_le_length (Nat.le_of_eq (by rw [encodeAll_length])),
      List.drop_of_length_le (Nat.le_of_eq (by rw [encodeAll_length])), List.nil_append,
      List.append_assoc, ← encode_length find (base + (pool P₁).length) (codeSize P₁) i,
      List.take_left]
  · rw [← length, List.drop_append, eq, pool_append, pool]
    rw [List.drop_of_length_le (by omega), List.nil_append, Nat.add_sub_cancel_left,
      List.drop_left, List.take_left]

/-- A label has the offset of the instruction behind it. -/
theorem findLabel_from {P₁ : List Stmt} {name : CString} (P₂ : List Stmt) (off : Nat)
    (first : .label name ∉ P₁) :
    findLabel (labelsFrom off (P₁ ++ .label name :: P₂)) name = some (off + codeSize P₁) := by
  induction P₁ generalizing off with
  | nil => simp [findLabel, labelsFrom, codeSize]
  | cons s P₁ ih =>
      rw [List.mem_cons, not_or] at first
      cases s with
      | label other =>
          have ne : other ≠ name := fun eq => first.1 (by rw [eq])
          have rest := ih off first.2
          unfold findLabel at rest ⊢
          rw [List.cons_append, labelsFrom, List.find?_cons_of_neg (by simpa using ne)]
          exact rest
      | instr i =>
          have rest := ih (off + i.size) first.2
          rw [List.cons_append, labelsFrom, rest, codeSize, Nat.add_assoc]

/-- A displacement leads from the end of its jump to the target. -/
theorem displacement_leads {target stop : Nat} (lt : target < 2 ^ 32) :
    (stop + displacement target stop) % 2 ^ 32 = target := by
  unfold displacement
  omega

/-! ## The assembler -/

theorem encodeAll_congr {find find' : CString → Option Nat} (addr off : Nat)
    (same : ∀ name ∈ jumpLabels P, find name = find' name) :
    encodeAll find addr off P = encodeAll find' addr off P := by
  induction P generalizing addr off with
  | nil => rfl
  | cons s P ih =>
      cases s with
      | label name => exact ih addr off same
      | instr i =>
          have later : ∀ name ∈ jumpLabels P, find name = find' name := by
            intro name mem
            refine same name ?_
            cases i <;> first | exact mem | exact List.mem_cons_of_mem _ mem
          have here : encode find addr off i = encode find' addr off i := by
            cases i with
            | jump op name =>
                simp only [encode, same name (List.mem_cons_self ..)]
            | _ => rfl
          rw [encodeAll, encodeAll, here, ih _ _ later]

/-- The text is read as it is meant: the lines, and the labels that jumps name. -/
structure ReadsRight (src : CString) : Prop where
  lines : ∀ raw ∈ pieces newline src, readLine readInstr raw = readLine meaning raw
  labels : ∀ P ∈ statements meaning src, ∀ name ∈ jumpLabels P,
    findLabel (cutLabels (labelsFrom 0 P)) name = findLabel (labelsFrom 0 P) name

/-- The result is the code of the program: both passes lay it out alike, each instruction is
encoded in its place with its literal in the pool, each jump leads to the offset of the
instruction behind its label, and nothing is written behind the buffer. -/
structure AssembledAs (P : List Stmt) (code : Nat → UInt8) (r : (Nat → UInt8) × Nat) : Prop where
  bytes : (List.range r.2).map r.1 = assemble P
  passes : ∃ x y, firstPass P code = some x ∧ secondPass P x = some y ∧
    x.codeLen = codeSize P ∧ y.codeLen = codeSize P
  instr : ∀ P₁ i P₂, P = P₁ ++ .instr i :: P₂ →
    ((assemble P).drop (codeSize P₁)).take i.size =
        encode (findLabel (labelsFrom 0 P)) (codeBase + codeSize P + (pool P₁).length)
          (codeSize P₁) i ∧
      ((assemble P).drop (codeSize P + (pool P₁).length)).take i.literal.length = i.literal
  jumps : ∀ name ∈ jumpLabels P, ∃ P₁ P₂, P = P₁ ++ .label name :: P₂ ∧
    findLabel (labelsFrom 0 P) name = some (codeSize P₁) ∧
    ∀ stop, (stop + displacement (codeSize P₁) stop) % 2 ^ 32 = codeSize P₁
  room : r.2 ≤ maxCode
  same : ∀ j, maxCode ≤ j → r.1 j = code j

theorem statements_congr {read read' : CString → Option Instr} {src : CString}
    (same : ∀ raw ∈ pieces newline src, readLine read raw = readLine read' raw) :
    statements read src = statements read' src := by
  unfold statements
  congr 1
  generalize pieces newline src = lines at same
  induction lines with
  | nil => rfl
  | cons raw lines ih =>
      rw [List.forall_mem_cons] at same
      rw [List.mapM_cons, List.mapM_cons, same.1, ih same.2]

/-- A label that is found is there. -/
theorem label_of_found {name : CString} {off : Nat}
    (found : (findLabel (labelsFrom off P) name).isSome) :
    ∃ P₁ P₂, P = P₁ ++ .label name :: P₂ ∧ .label name ∉ P₁ := by
  have mem : .label name ∈ P := by
    induction P generalizing off with
    | nil => cases found
    | cons s P ih =>
        cases s with
        | label other =>
            by_cases eq : other = name
            · rw [eq]
              exact List.mem_cons_self ..
            · unfold findLabel at found
              rw [labelsFrom, List.find?_cons_of_neg (by simpa using eq)] at found
              exact List.mem_cons_of_mem _ (ih found)
        | instr i => exact List.mem_cons_of_mem _ (ih found)
  exact List.eq_append_cons_of_mem mem

/-- What the passes do with a text that is accepted, read as it is. -/
structure Compiled (P : List Stmt) (code : Nat → UInt8) (r : (Nat → UInt8) × Nat) (x y : Pass) :
    Prop where
  first : firstPass P code = some x
  second : secondPass P x = some y
  firstRun : FirstRun ⟨code, 0, [], [], 0⟩ x P
  secondRun : SecondRun { x with codeLen := 0, prints := [], litTotal := 0 } y P
  placed : Placed (findLabel (cutLabels (labelsFrom 0 P))) (codeSize P) 0 0 y.code r.1 r.2 P

theorem compiled {src : CString} {code : Nat → UInt8} {r : (Nat → UInt8) × Nat}
    (accepted : compileSource src code = some r) :
    ∃ P x y, statements readInstr src = some P ∧ Compiled P code r x y := by
  unfold compileSource at accepted
  split at accepted
  · cases accepted
  simp only [Option.bind_eq_bind, Option.bind_eq_some_iff] at accepted
  obtain ⟨P, program, x, first, y, second, placing⟩ := accepted
  obtain ⟨code', len⟩ := r
  have firstEq := first
  unfold firstPass at first
  rw [Option.bind_eq_some_iff] at first
  obtain ⟨x', ran, check⟩ := first
  split at check
  · cases check
  obtain rfl := Option.some.inj check
  have run₁ := firstRun (Nat.zero_le _) ran
  have run₂ := secondRun (x := { x' with codeLen := 0, prints := [], litTotal := 0 })
    (Nat.zero_le _) second
  have size₂ : y.codeLen = codeSize P := run₂.codeLen.trans (Nat.zero_add _)
  have labels : x'.labels = cutLabels (labelsFrom 0 P) := run₁.labels
  have prints : y.prints = refsAll 0 P := run₂.prints
  have holds : Holds y.code 0 (stagedAll x'.labels 0 P) := run₂.holds
  rw [prints, size₂] at placing
  have done := placed (by omega) holds placing
  rw [labels] at done
  exact ⟨P, x', y, program, firstEq, second, run₁, run₂, done⟩

/-- The bytes of what is compiled. -/
theorem Compiled.bytes {P : List Stmt} {code : Nat → UInt8} {r : (Nat → UInt8) × Nat} {x y : Pass}
    (compiled : Compiled P code r x y) :
    (List.range r.2).map r.1 =
      encodeAll (findLabel (cutLabels (labelsFrom 0 P))) (codeBase + codeSize P) 0 P ++ pool P := by
  have done := compiled.placed
  have written := done.written
  have literals := done.literals
  rw [Nat.add_zero] at written literals
  have bytes := written.append (b := pool P) (by rwa [encodeAll_length, Nat.zero_add])
  rw [← map_range_of_holds bytes, List.length_append, encodeAll_length, done.stop, Nat.add_zero]

/-- **What `compile_source` accepts and reads as it is meant, it assembles.** -/
theorem compile_source_correct {src : CString} {code : Nat → UInt8} {r : (Nat → UInt8) × Nat}
    (reads : ReadsRight src) (accepted : compileSource src code = some r) :
    ∃ P, statements meaning src = some P ∧ AssembledAs P code r := by
  obtain ⟨P, x, y, program, compiled⟩ := compiled accepted
  have bytes := compiled.bytes
  obtain ⟨first, second, run₁, run₂, done⟩ := compiled
  rw [statements_congr reads.lines] at program
  have size₁ : x.codeLen = codeSize P := run₁.codeLen.trans (Nat.zero_add _)
  have size₂ : y.codeLen = codeSize P := run₂.codeLen.trans (Nat.zero_add _)
  have labels : x.labels = cutLabels (labelsFrom 0 P) := run₁.labels
  have found : ∀ name ∈ jumpLabels P, (findLabel x.labels name).isSome := run₂.found
  have same := reads.labels P program
  rw [labels] at found
  rw [encodeAll_congr _ _ same] at bytes
  have stop : r.2 = codeSize P + (pool P).length := done.stop
  have room₂ := run₂.room
  have room : r.2 ≤ maxCode := done.room (by omega)
  refine ⟨P, program, bytes, ⟨x, y, first, second, size₁, size₂⟩, fun P₁ i P₂ => assemble_instr,
    fun name mem => ?_, room, fun j behind => ?_⟩
  · have there := found name mem
    rw [same name mem] at there
    obtain ⟨P₁, P₂, eq, notMem⟩ := label_of_found there
    refine ⟨P₁, P₂, eq, ?_, fun stop => displacement_leads ?_⟩
    · have at' := findLabel_from P₂ 0 notMem
      rw [← eq, Nat.zero_add] at at'
      exact at'
    · have total := congrArg codeSize eq
      rw [codeSize_append] at total
      unfold maxCode at room₂
      omega
  · have in₁ := run₁.room
    have outside₁ := run₁.same j (by omega)
    have outside₂ := run₂.same j (by omega)
    exact (done.same j (by omega) (by omega)).trans (outside₂.trans outside₁)

/-- A loop that prints a literal, and its program. -/
def printLoop : CString := ascii "a:\nprintln \"hi\" ; twice\n jmp a\n"

def printLoopStmts : List Stmt :=
  [.label (ascii "a"), .instr (.print (ascii "hi") true), .instr (.jump 0xE9 (ascii "a"))]

theorem printLoop_reads : ReadsRight printLoop where
  lines := by decide +kernel
  labels P mem := by
    have program : statements meaning printLoop = some printLoopStmts := by decide +kernel
    obtain rfl := Option.some.inj (program.symm.trans mem)
    decide +kernel

theorem compile_source_printLoop :
    ∃ P, statements meaning printLoop = some P ∧ AssembledAs P (fun _ => 0)
      ((compileSource printLoop fun _ => 0).get (by decide +kernel)) :=
  compile_source_correct printLoop_reads (Option.some_get _).symm

/-- Two labels that differ in a capital letter. -/
def twoLoops : CString := ascii "Loop:\nnop\nloop:\nnop\njmp Loop\n"

def twoLoopsStmts : List Stmt :=
  [.label (ascii "Loop"), .instr (.plain [0x90]), .label (ascii "loop"), .instr (.plain [0x90]),
    .instr (.jump 0xE9 (ascii "Loop"))]

/-- The jump to `Loop` leads to `loop`. -/
theorem asm_wrong_label :
    ¬ ∀ src code r, compileSource src code = some r →
      ∃ P, statements meaning src = some P ∧ AssembledAs P code r := by
  intro all
  have program : statements meaning twoLoops = some twoLoopsStmts := by decide +kernel
  have code : (compileSource twoLoops fun _ => 0).map (fun r => (List.range r.2).map r.1) =
      some [0x90, 0x90, 0xE9, 0xFA, 0xFF, 0xFF, 0xFF] := by decide +kernel
  obtain ⟨r, accepted, bytes⟩ := Option.map_eq_some_iff.1 code
  obtain ⟨P, same, assembled⟩ := all twoLoops _ r accepted
  obtain rfl := Option.some.inj (program.symm.trans same)
  rw [assembled.bytes] at bytes
  exact absurd bytes (by decide +kernel)

end NTux.Elf.Asm
