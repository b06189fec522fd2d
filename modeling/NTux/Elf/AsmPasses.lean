import NTux.Elf.Asm

/-!
# The passes of the assembler

What a pass has written is what the buffer holds from some offset on (`Holds`), and a write
changes nothing outside its range (`SameOutside`).  The second pass leaves the encodings with
zeros for the operands of the prints, and `placeLiterals` fills these in: both are shown by
induction on the program.
-/

namespace NTux.Elf.Asm

variable {code code' code'' : Nat → UInt8} {a b : List UInt8} {o lo hi : Nat} {x y : Pass}

/-! ## Buffers -/

/-- The buffer holds the bytes from an offset on. -/
def Holds (code : Nat → UInt8) (o : Nat) (bs : List UInt8) : Prop :=
  ∀ j (lt : j < bs.length), code (o + j) = bs[j]

/-- Only bytes of a range are other ones. -/
def SameOutside (lo hi : Nat) (code code' : Nat → UInt8) : Prop :=
  ∀ j, j < lo ∨ hi ≤ j → code' j = code j

theorem SameOutside.refl (lo hi : Nat) (code : Nat → UInt8) : SameOutside lo hi code code :=
  fun _ _ => rfl

theorem SameOutside.trans {mid : Nat} (first : SameOutside lo mid code code')
    (second : SameOutside mid hi code' code'') (le : lo ≤ mid) (le' : mid ≤ hi) :
    SameOutside lo hi code code'' := fun j out =>
  (second j (by omega)).trans (first j (by omega))

theorem wr_holds (code : Nat → UInt8) (o : Nat) (bs : List UInt8) : Holds (wr code o bs) o bs := by
  intro j lt
  unfold wr
  rw [dif_pos ⟨Nat.le_add_right .., by omega⟩, List.get_eq_getElem]
  congr 1
  exact Nat.add_sub_cancel_left ..

theorem wr_outside (code : Nat → UInt8) (o : Nat) (bs : List UInt8) :
    SameOutside o (o + bs.length) code (wr code o bs) := by
  intro j out
  unfold wr
  rw [dif_neg (by omega)]

theorem Holds.frame (holds : Holds code o a) (same : SameOutside lo hi code code')
    (apart : o + a.length ≤ lo ∨ hi ≤ o) : Holds code' o a := fun j lt =>
  (same _ (by omega)).trans (holds j lt)

theorem Holds.append (first : Holds code o a) (second : Holds code (o + a.length) b) :
    Holds code o (a ++ b) := by
  intro j lt
  by_cases inA : j < a.length
  · rw [List.getElem_append_left inA]
    exact first j inA
  · rw [List.getElem_append_right (Nat.le_of_not_lt inA)]
    rw [List.length_append] at lt
    have at' := second (j - a.length) (by omega)
    rwa [show o + a.length + (j - a.length) = o + j by omega] at at'

theorem Holds.left (holds : Holds code o (a ++ b)) : Holds code o a := by
  intro j lt
  have at' := holds j (by rw [List.length_append]; omega)
  rwa [List.getElem_append_left lt] at at'

theorem Holds.right (holds : Holds code o (a ++ b)) : Holds code (o + a.length) b := by
  intro j lt
  have at' := holds (a.length + j) (by rw [List.length_append]; omega)
  rw [List.getElem_append_right (Nat.le_add_right ..)] at at'
  rw [Nat.add_assoc, at']
  congr 1
  exact Nat.add_sub_cancel_left ..

/-- What a buffer holds from its start on is its contents. -/
theorem map_range_of_holds (holds : Holds code 0 a) : (List.range a.length).map code = a := by
  refine List.ext_getElem (by simp) fun j lt lt' => ?_
  rw [List.getElem_map, List.getElem_range]
  have at' := holds j lt'
  rwa [Nat.zero_add] at at'

/-! ## Emitting -/

@[simp] theorem le_length (n v : Nat) : (le n v).length = n := by
  unfold le
  rw [List.length_map, List.length_range]

@[simp] theorem movCode_length (reg imm : Nat) : (movCode reg imm).length = 10 := by
  unfold movCode
  rw [List.length_append, le_length]
  rfl

/-- Bytes put at the end. -/
def put (x : Pass) (bs : List UInt8) : Pass :=
  { x with code := wr x.code x.codeLen bs, codeLen := x.codeLen + bs.length }

theorem emit_some {bs : List UInt8} :
    emit x bs = some y ↔ x.codeLen + bs.length ≤ maxCode ∧ y = put x bs := by
  unfold emit
  split
  next full => exact ⟨fun eq => (nomatch eq), fun both => absurd both.1 (Nat.not_le.2 full)⟩
  next room =>
    rw [Option.some.injEq]
    exact ⟨fun eq => ⟨Nat.not_lt.1 room, eq.symm⟩, fun both => both.2.symm⟩

theorem wr_wr (code : Nat → UInt8) (o : Nat) (a b : List UInt8) :
    wr (wr code o a) (o + a.length) b = wr code o (a ++ b) := by
  funext j
  by_cases before : j < o
  · rw [wr_outside _ _ _ j (by omega), wr_outside _ _ _ j (by omega), wr_outside _ _ _ j (by omega)]
  by_cases behind : o + (a ++ b).length ≤ j
  · rw [List.length_append] at behind
    rw [wr_outside _ _ _ j (by omega), wr_outside _ _ _ j (by omega),
      wr_outside _ _ _ j (by rw [List.length_append]; omega)]
  have both : Holds (wr (wr code o a) (o + a.length) b) o (a ++ b) :=
    ((wr_holds code o a).frame (wr_outside _ _ _) (.inl (Nat.le_refl _))).append (wr_holds _ _ _)
  have once := wr_holds code o (a ++ b)
  obtain ⟨k, rfl⟩ := Nat.exists_eq_add_of_le (Nat.not_lt.1 before)
  have lt : k < (a ++ b).length := by omega
  rw [both k lt, once k lt]

theorem put_put (x : Pass) (a b : List UInt8) : put (put x a) b = put x (a ++ b) := by
  unfold put
  dsimp only
  rw [wr_wr, List.length_append, Nat.add_assoc]

theorem put_nil (x : Pass) : put x [] = x := by
  have same : wr x.code x.codeLen [] = x.code := funext fun j => dif_neg fun both =>
    absurd both.2 (Nat.not_lt_zero _)
  unfold put
  rw [same]
  rfl

theorem emitMovImm64_some {reg imm : Nat} :
    emitMovImm64 x reg imm = some y ↔ x.codeLen + 10 ≤ maxCode ∧ y = put x (movCode reg imm) := by
  unfold emitMovImm64
  simp only [Option.bind_eq_bind, Option.bind_eq_some_iff, emit_some]
  constructor
  · rintro ⟨x₁, ⟨-, rfl⟩, x₂, ⟨-, rfl⟩, room, rfl⟩
    rw [put_put, put_put]
    refine ⟨?_, rfl⟩
    simp only [put, List.length_singleton, le_length] at room
    omega
  · rintro ⟨room, rfl⟩
    refine ⟨_, ⟨?_, rfl⟩, _, ⟨?_, rfl⟩, ?_, ?_⟩
    · rw [List.length_singleton]
      omega
    · simp only [put, List.length_singleton]
      omega
    · simp only [put, List.length_singleton, le_length]
      omega
    · rw [put_put, put_put]
      rfl

theorem emitPlain_some {bs : List UInt8} (le : x.codeLen ≤ maxCode)
    (eq : bs.foldlM (fun x c => emit x [c]) x = some y) :
    x.codeLen + bs.length ≤ maxCode ∧ y = put x bs := by
  induction bs generalizing x with
  | nil =>
      obtain rfl := Option.some.inj eq
      exact ⟨le, (put_nil x).symm⟩
  | cons c bs ih =>
      rw [List.foldlM_cons, Option.bind_eq_bind, Option.bind_eq_some_iff] at eq
      obtain ⟨z, first, rest⟩ := eq
      obtain ⟨room, rfl⟩ := emit_some.1 first
      obtain ⟨room', rfl⟩ := ih room rest
      rw [put_put]
      simp only [put, List.length_singleton] at room'
      exact ⟨by rw [List.length_cons]; omega, rfl⟩

/-! ## One instruction -/

/-- The encoding before the operands of a print are known: zeros stand for them. -/
def staged (labels : List (CString × Nat)) (off : Nat) : Instr → List UInt8
  | .print _ _ => movCode 0 0 ++ movCode 7 0 ++ movCode 6 0 ++ [0x0F, 0x05]
  | i => encode (findLabel labels) 0 off i

/-- The references of a print at an offset. -/
def refs (off : Nat) : Instr → List PrintRef
  | .print text nl => [⟨off + 12, off + 22, text, nl⟩]
  | _ => []

theorem encode_length (find : CString → Option Nat) (addr off : Nat) (i : Instr) :
    (encode find addr off i).length = i.size := by
  cases i <;> simp [encode, Instr.size]

theorem staged_length (labels : List (CString × Nat)) (off : Nat) (i : Instr) :
    (staged labels off i).length = i.size := by
  cases i <;> simp [staged, encode, Instr.size]

/-- What an instruction does in the first pass. -/
structure FirstInstr (x y : Pass) (i : Instr) : Prop where
  codeLen : y.codeLen = x.codeLen + i.size
  room : y.codeLen ≤ maxCode
  same : SameOutside x.codeLen y.codeLen x.code y.code
  labels : y.labels = x.labels
  litTotal : y.litTotal = x.litTotal + i.literal.length

/-- What an instruction does in the second pass. -/
structure SecondInstr (x y : Pass) (i : Instr) : Prop where
  codeLen : y.codeLen = x.codeLen + i.size
  room : y.codeLen ≤ maxCode
  same : SameOutside x.codeLen y.codeLen x.code y.code
  labels : y.labels = x.labels
  prints : y.prints = x.prints ++ refs x.codeLen i
  holds : Holds y.code x.codeLen (staged x.labels x.codeLen i)
  found : ∀ op name, i = .jump op name → (findLabel x.labels name).isSome

theorem put_outside (x : Pass) (bs : List UInt8) :
    SameOutside x.codeLen (put x bs).codeLen x.code (put x bs).code := wr_outside _ _ _

/-- An instruction that is only put at the end. -/
theorem firstInstr_put {i : Instr} {bs : List UInt8} (length : bs.length = i.size)
    (noText : i.literal = []) (room : x.codeLen + bs.length ≤ maxCode) :
    FirstInstr x (put x bs) i where
  codeLen := congrArg (x.codeLen + ·) length
  room := room
  same := put_outside x bs
  labels := rfl
  litTotal := by
    rw [noText]
    rfl

theorem secondInstr_put {i : Instr} {bs : List UInt8} (eq : bs = staged x.labels x.codeLen i)
    (noText : refs x.codeLen i = []) (noJump : ∀ op name, i ≠ .jump op name)
    (room : x.codeLen + bs.length ≤ maxCode) : SecondInstr x (put x bs) i where
  codeLen := congrArg (x.codeLen + ·) (by rw [eq, staged_length])
  room := room
  same := put_outside x bs
  labels := rfl
  prints := by
    rw [noText, List.append_nil]
    rfl
  holds := by
    rw [← eq]
    exact wr_holds _ _ _
  found op name jump := absurd jump (noJump op name)

/-- The instructions that neither print nor jump are put at the end in both passes. -/
theorem passInstr_put {second : Bool} {i : Instr} (le : x.codeLen ≤ maxCode)
    (eq : passInstr second x i = some y) (noPrint : ∀ text nl, i ≠ .print text nl)
    (noJump : ∀ op name, i ≠ .jump op name) :
    y = put x (staged x.labels x.codeLen i) ∧
      x.codeLen + (staged x.labels x.codeLen i).length ≤ maxCode := by
  cases i with
  | plain bs =>
      obtain ⟨room, rfl⟩ := emitPlain_some le eq
      exact ⟨rfl, room⟩
  | sleep ticks =>
      simp only [passInstr, Option.bind_eq_bind, Option.bind_eq_some_iff, emit_some,
        emitMovImm64_some] at eq
      obtain ⟨x₁, ⟨-, rfl⟩, x₂, ⟨-, rfl⟩, x₃, ⟨-, rfl⟩, room, rfl⟩ := eq
      simp only [put_put]
      refine ⟨by simp [staged, encode], ?_⟩
      rw [staged_length]
      simp only [put, List.length_singleton, movCode_length] at room
      unfold Instr.size
      omega
  | exit =>
      simp only [passInstr, Option.bind_eq_bind, Option.bind_eq_some_iff, emit_some,
        emitMovImm64_some] at eq
      obtain ⟨x₁, ⟨-, rfl⟩, x₂, ⟨-, rfl⟩, room, rfl⟩ := eq
      simp only [put_put]
      refine ⟨by simp [staged, encode], ?_⟩
      rw [staged_length]
      simp only [put, List.length_singleton, movCode_length] at room
      unfold Instr.size
      omega
  | print text nl => exact absurd rfl (noPrint text nl)
  | int imm =>
      simp only [passInstr, Option.bind_eq_bind, Option.bind_eq_some_iff, emit_some] at eq
      obtain ⟨x₁, ⟨-, rfl⟩, room, rfl⟩ := eq
      rw [put_put]
      exact ⟨rfl, room⟩
  | mov reg imm =>
      obtain ⟨room, rfl⟩ := emitMovImm64_some.1 eq
      exact ⟨rfl, by rw [staged_length]; exact room⟩
  | jump op name => exact absurd rfl (noJump op name)

/-- The bytes a print puts at the end, with zeros for its operands. -/
def printCode : List UInt8 := movCode 0 0 ++ movCode 7 0 ++ movCode 6 0 ++ [0x0F, 0x05]

/-- The first pass over an instruction that is emitted as it stands. -/
theorem passInstr_first_put {i : Instr} (le' : x.codeLen ≤ maxCode)
    (eq : passInstr false x i = some y) (noText : i.literal = [])
    (noPrint : ∀ text nl, i ≠ .print text nl) (noJump : ∀ op name, i ≠ .jump op name) :
    FirstInstr x y i := by
  obtain ⟨rfl, room⟩ := passInstr_put le' eq noPrint noJump
  exact firstInstr_put (staged_length _ _ _) noText room

/-- The second pass over an instruction that is emitted as it stands. -/
theorem passInstr_second_put {i : Instr} (le' : x.codeLen ≤ maxCode)
    (eq : passInstr true x i = some y) (noRef : refs x.codeLen i = [])
    (noPrint : ∀ text nl, i ≠ .print text nl) (noJump : ∀ op name, i ≠ .jump op name) :
    SecondInstr x y i := by
  obtain ⟨rfl, room⟩ := passInstr_put le' eq noPrint noJump
  exact secondInstr_put rfl noRef noJump room

theorem passInstr_first {i : Instr} (le' : x.codeLen ≤ maxCode)
    (eq : passInstr false x i = some y) : FirstInstr x y i := by
  cases i with
  | print text nl =>
      simp only [passInstr, Bool.false_eq_true, if_false, Option.bind_eq_bind,
        Option.bind_eq_some_iff, Option.bind_none, Option.bind_some,
        Option.ite_none_left_eq_some, emit_some,
        emitMovImm64_some] at eq
      obtain ⟨-, x₁, ⟨-, rfl⟩, x₂, ⟨-, rfl⟩, x₃, ⟨-, rfl⟩, x₄, ⟨-, rfl⟩, x₅, ⟨room, rfl⟩,
        last⟩ := eq
      obtain rfl := Option.some.inj last
      simp only [put, List.length_singleton, movCode_length] at room ⊢
      refine ⟨rfl, room, fun j out => ?_, rfl, rfl⟩
      dsimp only at out ⊢
      rw [wr_outside _ _ _ j (by rw [le_length]; omega), wr_outside _ _ _ j (by
        rw [List.length_singleton]; omega), wr_outside _ _ _ j (by
        rw [List.length_singleton]; omega), wr_outside _ _ _ j (by rw [movCode_length]; omega),
        wr_outside _ _ _ j (by rw [movCode_length]; omega),
        wr_outside _ _ _ j (by rw [movCode_length]; omega)]
  | jump op name =>
      simp only [passInstr, Bool.false_eq_true, if_false, Option.bind_eq_bind,
        Option.bind_eq_some_iff, emit_some] at eq
      obtain ⟨x₁, ⟨-, rfl⟩, x₂, ⟨room, rfl⟩, last⟩ := eq
      obtain rfl := Option.some.inj last
      rw [put_put]
      exact firstInstr_put rfl rfl room
  | plain bs => exact passInstr_first_put le' eq rfl (fun _ _ => nofun) fun _ _ => nofun
  | sleep ticks => exact passInstr_first_put le' eq rfl (fun _ _ => nofun) fun _ _ => nofun
  | exit => exact passInstr_first_put le' eq rfl (fun _ _ => nofun) fun _ _ => nofun
  | int imm => exact passInstr_first_put le' eq rfl (fun _ _ => nofun) fun _ _ => nofun
  | mov reg imm => exact passInstr_first_put le' eq rfl (fun _ _ => nofun) fun _ _ => nofun

theorem passInstr_second {i : Instr} (le' : x.codeLen ≤ maxCode)
    (eq : passInstr true x i = some y) : SecondInstr x y i := by
  cases i with
  | print text nl =>
      simp only [passInstr, if_true, Option.bind_eq_bind, Option.bind_eq_some_iff,
        Option.bind_none, Option.bind_some,
        Option.ite_none_left_eq_some, emit_some, emitMovImm64_some] at eq
      obtain ⟨-, x₁, ⟨-, rfl⟩, x₂, ⟨-, rfl⟩, x₃, ⟨-, rfl⟩, x₄, ⟨-, rfl⟩, x₅, ⟨room, rfl⟩,
        last⟩ := eq
      obtain rfl := Option.some.inj last
      have all : put (put (put (put (put x (movCode 0 0)) (movCode 7 0)) (movCode 6 0)) [0x0F])
          [0x05] = put x printCode := by
        simp only [put_put]
        rfl
      rw [all]
      simp only [put, List.length_singleton, movCode_length] at room
      refine ⟨rfl, room, wr_outside _ _ _, rfl, rfl, wr_holds _ _ _, fun _ _ jump => nomatch jump⟩
  | jump op name =>
      simp only [passInstr, if_true, Option.bind_eq_bind, Option.bind_eq_some_iff,
        emit_some] at eq
      obtain ⟨x₁, ⟨-, rfl⟩, x₂, ⟨room, rfl⟩, last⟩ := eq
      obtain ⟨off, found, rfl⟩ := Option.map_eq_some_iff.1 last
      have found' : findLabel x.labels name = some off := found
      have start : (put x [op]).codeLen = x.codeLen + 1 := rfl
      rw [put_put, start] at *
      have length : ([op] ++ le 4 0).length = 5 := rfl
      have patch := wr_outside (put x ([op] ++ le 4 0)).code (x.codeLen + 1)
        (le 4 (displacement off (x.codeLen + 1 + 4)))
      rw [le_length] at patch
      refine ⟨rfl, room, ?_, rfl, (List.append_nil _).symm, ?_, fun op' name' jump => ?_⟩
      · intro j out
        have out' : j < x.codeLen ∨ x.codeLen + 5 ≤ j := out
        exact (patch j (by omega)).trans (wr_outside _ _ _ j (by rw [length]; omega))
      · have first : Holds (put x ([op] ++ le 4 0)).code x.codeLen [op] := (wr_holds _ _ _).left
        have second := wr_holds (put x ([op] ++ le 4 0)).code (x.codeLen + 1)
          (le 4 (displacement off (x.codeLen + 1 + 4)))
        have both := (first.frame patch (.inl (Nat.le_refl _))).append second
        have code : staged x.labels x.codeLen (.jump op name) =
            [op] ++ le 4 (displacement off (x.codeLen + 1 + 4)) := by
          simp only [staged, encode, found', Option.getD_some]
          rfl
        rw [code]
        exact both
      · cases jump
        rw [found']
        rfl
  | plain bs => exact passInstr_second_put le' eq rfl (fun _ _ => nofun) fun _ _ => nofun
  | sleep ticks => exact passInstr_second_put le' eq rfl (fun _ _ => nofun) fun _ _ => nofun
  | exit => exact passInstr_second_put le' eq rfl (fun _ _ => nofun) fun _ _ => nofun
  | int imm => exact passInstr_second_put le' eq rfl (fun _ _ => nofun) fun _ _ => nofun
  | mov reg imm => exact passInstr_second_put le' eq rfl (fun _ _ => nofun) fun _ _ => nofun

end NTux.Elf.Asm
