import NTux.Lib.Fields
import Mathlib.Algebra.Group.Nat.Defs
import Mathlib.Algebra.Group.Int.Defs

/-!
# The assembler

`compile_source` of `elf/asm.c`: two passes over the lines of a text.  The first one lays out
the code and notes the labels, the second one writes it with the displacements of the jumps,
and then puts the literals behind it and their addresses into the operands.

A line is read the same way in both passes, so it is read here before them.  An error of any
line makes the result -1, whatever the others are.
-/

namespace NTux.Elf.Asm

open NTux.Lib.Fields

/-- The bytes of a string up to the zero that ends it. -/
abbrev CString := List UInt8

/-- `NTUX_ASM_MAX_SRC`. -/
def maxSrc : Nat := 32768

/-- `NTUX_ASM_MAX_CODE`. -/
def maxCode : Nat := 8192

/-- `NTUX_ASM_MAX_LABELS`. -/
def maxLabels : Nat := 128

/-- `NTUX_ASM_MAX_PRINTS`. -/
def maxPrints : Nat := 64

/-- `NTUX_ASM_MAX_PRINT_STR`. -/
def maxPrintStr : Nat := 120

/-- `NTUX_RING3_CODE_BASE`. -/
def codeBase : Nat := 0x1A0000

/-- The bytes of a literal. -/
def ascii (s : String) : CString := s.toList.map fun c => UInt8.ofNat c.toNat

def newline : UInt8 := 10
def space : UInt8 := 32
def tab : UInt8 := 9
def comma : UInt8 := 44
def quote : UInt8 := 34
def backslash : UInt8 := 92

/-! ## Lines -/

/-- `strip_comment`. -/
def stripComment (s : CString) : CString := s.takeWhile fun c => c != 59 && c != 35

/-- `trim`. -/
def trim (s : CString) : CString :=
  let s := (s.reverse.dropWhile fun c => c == space || c == tab || c == 13 || c == newline).reverse
  s.dropWhile fun c => c == space || c == tab

/-- A capital letter made small. -/
def lower (c : UInt8) : UInt8 := if 65 ≤ c ∧ c ≤ 90 then c + 32 else c

/-- A line taken apart: the mnemonic and up to two operands. -/
structure Words where
  op : CString
  a1 : Option CString
  a2 : Option CString
  deriving DecidableEq

/-- The part of `compile_source` that sets `a0`, `a1` and `a2`. -/
def words (work : CString) : Words :=
  match cut space work with
  | none => ⟨work, none, none⟩
  | some (op, rest) =>
      let sp := rest.dropWhile fun c => c == space || c == tab
      match cut comma sp with
      | none => ⟨op, some (trim sp), none⟩
      | some (a1, a2) =>
          ⟨op, some (trim a1), some (trim (a2.dropWhile fun c => c == space || c == tab))⟩

/-- The value of a digit in a base. -/
def digitValue (base : Nat) (c : UInt8) : Option Nat :=
  if 48 ≤ c ∧ c ≤ 57 then some (c.toNat - 48)
  else if base = 16 ∧ 97 ≤ c ∧ c ≤ 102 then some (c.toNat - 87)
  else if base = 16 ∧ 65 ≤ c ∧ c ≤ 70 then some (c.toNat - 55)
  else none

/-- The base of a number, and its digits. -/
def numberParts : CString → Nat × CString
  | 48 :: 120 :: s => (16, s)
  | 48 :: 88 :: s => (16, s)
  | s => (10, s)

/-- `parse_u64`: a number that is too large wraps around. -/
def parseU64 (s : CString) : Option Nat :=
  if s = [] then none
  else
    let (base, digits) := numberParts s
    digits.foldlM (fun v c => (digitValue base c).map fun d => (v * base + d) % 2 ^ 64) 0

/-- `reg_id`. -/
def regId (reg : CString) : Option Nat :=
  [ascii "rax", ascii "rcx", ascii "rdx", ascii "rbx", ascii "rsp", ascii "rbp", ascii "rsi",
    ascii "rdi", ascii "r8", ascii "r9", ascii "r10", ascii "r11", ascii "r12", ascii "r13",
    ascii "r14", ascii "r15"].findIdx? (· = reg)

/-- The character an escape stands for. -/
def escape (e : UInt8) : UInt8 :=
  if e = 110 then newline else if e = 116 then tab else if e = 114 then 13 else e

/-- The loop of `parse_quoted_text`, `n` characters in. -/
def quotedFrom : Nat → CString → Option (List UInt8)
  | _, [] => none
  | n, c :: s =>
      if c = quote then some []
      else if maxPrintStr ≤ n + 1 then none
      else if c = backslash then
        match s with
        | [] => none
        | e :: s => (quotedFrom (n + 1) s).map (escape e :: ·)
      else (quotedFrom (n + 1) s).map (c :: ·)

/-- `parse_quoted_text`. -/
def parseQuotedText (line : CString) : Option (List UInt8) :=
  (cut quote line).bind fun (_, s) => quotedFrom 0 s

/-! ## Instructions -/

/-- An instruction. -/
inductive Instr
  | plain (code : List UInt8)
  | sleep (ticks : Nat)
  | exit
  | print (text : List UInt8) (newline : Bool)
  | int (imm : Nat)
  | mov (reg imm : Nat)
  | jump (op : UInt8) (label : CString)
  deriving DecidableEq

/-- The mnemonics without operands. -/
def plainCode (op : CString) : Option (List UInt8) :=
  [(ascii "nop", [0x90]), (ascii "ret", [0xC3]), (ascii "hlt", [0xF4]), (ascii "cli", [0xFA]),
    (ascii "sti", [0xFB]), (ascii "int3", [0xCC]), (ascii "ud2", [0x0F, 0x0B]),
    (ascii "syscall", [0x0F, 0x05]), (ascii "int80", [0xCD, 0x80])].lookup op

/-- The chain of tests on the mnemonic.  `number` reads a number, `label` is what a jump
names, and `text` the line that holds the text of a `print`. -/
def instrOf (number : CString → Option Nat) (w : Words) (label text : CString) : Option Instr :=
  match plainCode w.op with
  | some code => some (.plain code)
  | none =>
      if w.op = ascii "sleep" ∧ w.a1.isSome then (number (w.a1.getD [])).map .sleep
      else if w.op = ascii "exit" then some .exit
      else if w.op = ascii "print" then (parseQuotedText text).map (.print · false)
      else if w.op = ascii "println" then (parseQuotedText text).map (.print · true)
      else if w.op = ascii "int" ∧ w.a1.isSome then
        (number (w.a1.getD [])).bind fun v => if 0xFF < v then none else some (.int v)
      else if w.op = ascii "mov" ∧ w.a1.isSome ∧ w.a2.isSome then
        (number (w.a2.getD [])).bind fun imm => (regId (w.a1.getD [])).map (.mov · imm)
      else if w.op = ascii "jmp" ∧ w.a1.isSome then some (.jump 0xE9 label)
      else if w.op = ascii "call" ∧ w.a1.isSome then some (.jump 0xE8 label)
      else none

/-- How `compile_source` reads an instruction: cut to 127 bytes, in small letters. -/
def readInstr (line : CString) : Option Instr :=
  let orig := line.take 127
  let w := words (orig.map lower)
  instrOf parseU64 w (w.a1.getD []) orig

/-- What a line says. -/
inductive Stmt
  | label (name : CString)
  | instr (i : Instr)
  deriving DecidableEq

/-- A line that is read with `read`: nothing, a label, or an instruction. -/
def readLine (read : CString → Option Instr) (raw : CString) : Option (List Stmt) :=
  let line := trim (stripComment raw)
  if line = [] then some []
  else if line.getLast? = some 58 then
    let name := trim line.dropLast
    some (if name = [] then [] else [.label name])
  else (read line).map fun i => [.instr i]

/-- The lines of a text. -/
def statements (read : CString → Option Instr) (src : CString) : Option (List Stmt) :=
  ((pieces newline src).mapM (readLine read)).map List.flatten

/-! ## The passes -/

/-- `v` in `n` bytes, the lowest first. -/
def le (n v : Nat) : List UInt8 := (List.range n).map fun i => UInt8.ofNat (v / 256 ^ i)

theorem offset_within (off : Nat) (bs : List UInt8) (i : Nat)
    (within : off ≤ i ∧ i - off < bs.length) : i - off < bs.length := within.2

/-- Bytes stored in a buffer. -/
def wr (code : Nat → UInt8) (off : Nat) (bs : List UInt8) : Nat → UInt8 := fun i =>
  if h : off ≤ i ∧ i - off < bs.length then bs.get ⟨i - off, offset_within off bs i h⟩
  else code i

/-- `asm_print_ref_t`. -/
structure PrintRef where
  addrImmOff : Nat
  lenImmOff : Nat
  text : List UInt8
  newline : Bool

/-- The bytes of a literal. -/
def literal (text : List UInt8) (nl : Bool) : List UInt8 := text ++ if nl then [newline] else []

/-- The buffer and the tables of a pass. -/
structure Pass where
  code : Nat → UInt8
  codeLen : Nat
  labels : List (CString × Nat)
  prints : List PrintRef
  litTotal : Nat

/-- `emit_u8`, `emit_u32` and `emit_u64`: bytes are put at the end, if there is room. -/
def emit (x : Pass) (bs : List UInt8) : Option Pass :=
  if maxCode < x.codeLen + bs.length then none
  else some { x with code := wr x.code x.codeLen bs, codeLen := x.codeLen + bs.length }

/-- `emit_mov_imm64`. -/
def emitMovImm64 (x : Pass) (reg imm : Nat) : Option Pass := do
  let x ← emit x [if 8 ≤ reg then 0x49 else 0x48]
  let x ← emit x [UInt8.ofNat (0xB8 + reg % 8)]
  emit x (le 8 imm)

/-- `find_label`: the offset of the first label of the name. -/
def findLabel (labels : List (CString × Nat)) (name : CString) : Option Nat :=
  (labels.find? fun l => l.1 = name).map Prod.snd

/-- The displacement of a jump from its end to an offset. -/
def displacement (target stop : Nat) : Nat := (((target : Int) - stop) % 2 ^ 32).toNat

/-- One instruction, in the first or the second pass. -/
def passInstr (second : Bool) (x : Pass) : Instr → Option Pass
  | .plain code => code.foldlM (fun x c => emit x [c]) x
  | .sleep ticks => do
      let x ← emitMovImm64 x 0 5
      let x ← emitMovImm64 x 7 ticks
      let x ← emit x [0xCD]
      emit x [0x80]
  | .exit => do
      let x ← emitMovImm64 x 0 2
      let x ← emit x [0xCD]
      emit x [0x80]
  | .print text nl => do
      let full := (literal text nl).length
      let x ←
        if second then if maxPrints ≤ x.prints.length then none else some x
        else if maxCode < x.litTotal + full then none
        else some { x with litTotal := x.litTotal + full }
      let x ← emitMovImm64 x 0 0
      let rdi := x.codeLen + 2
      let x ← emitMovImm64 x 7 0
      let rsi := x.codeLen + 2
      let x ← emitMovImm64 x 6 0
      let x ← emit x [0x0F]
      let x ← emit x [0x05]
      if second then some { x with prints := x.prints ++ [⟨rdi, rsi, text, nl⟩] }
      else some { x with code := wr x.code rsi (le 8 full) }
  | .int imm => do
      let x ← emit x [0xCD]
      emit x [UInt8.ofNat imm]
  | .mov reg imm => emitMovImm64 x reg imm
  | .jump op label => do
      let x ← emit x [op]
      let dispAt := x.codeLen
      let x ← emit x (le 4 0)
      if second then
        (findLabel x.labels label).map fun off =>
          { x with code := wr x.code dispAt (le 4 (displacement off (dispAt + 4))) }
      else some x

/-- One line.  A label is noted with the first 31 bytes of its name. -/
def passStmt (second : Bool) (x : Pass) : Stmt → Option Pass
  | .label name =>
      if second then some x
      else if maxLabels ≤ x.labels.length ∨ (findLabel x.labels name).isSome then none
      else some { x with labels := x.labels ++ [(name.take 31, x.codeLen)] }
  | .instr i => passInstr second x i

/-- The loop behind the second pass: the literals and the operands. -/
def placeLiterals (codeLen : Nat) :
    Nat → (Nat → UInt8) → List PrintRef → Option ((Nat → UInt8) × Nat)
  | lit, code, [] => some (code, codeLen + lit)
  | lit, code, pr :: prs =>
      let full := literal pr.text pr.newline
      if maxCode < codeLen + lit + full.length then none
      else
        let code := wr code pr.addrImmOff (le 8 (codeBase + codeLen + lit))
        let code := wr code pr.lenImmOff (le 8 full.length)
        placeLiterals codeLen (lit + full.length) (wr code (codeLen + lit) full) prs

/-- The first pass. -/
def firstPass (P : List Stmt) (code : Nat → UInt8) : Option Pass :=
  (P.foldlM (passStmt false) ⟨code, 0, [], [], 0⟩).bind fun x =>
    if maxCode < x.codeLen + x.litTotal then none else some x

/-- The second pass, which starts with the labels and the buffer of the first one. -/
def secondPass (P : List Stmt) (x : Pass) : Option Pass :=
  P.foldlM (passStmt true) { x with codeLen := 0, prints := [], litTotal := 0 }

/-- `compile_source`: the buffer and the length of the code, if there is no error. -/
def compileSource (src : CString) (code : Nat → UInt8) : Option ((Nat → UInt8) × Nat) :=
  if maxSrc < src.length + 1 then none
  else do
    let P ← statements readInstr src
    let x ← firstPass P code
    let y ← secondPass P x
    placeLiterals y.codeLen 0 y.code y.prints

/-! ## What a text says -/

/-- A number as it is written. -/
def parseNumber (s : CString) : Option Nat :=
  let (base, digits) := numberParts s
  if digits = [] then none
  else digits.foldlM (fun v c => (digitValue base c).map fun d => v * base + d) 0

/-- The instruction that a line is: the whole of it, with numbers and labels as they are
written. -/
def meaning (line : CString) : Option Instr :=
  (instrOf parseNumber (words (line.map lower)) ((words line).a1.getD []) line).bind fun i =>
    match i with
    | .sleep v => if v < 2 ^ 64 then some i else none
    | .mov _ v => if v < 2 ^ 64 then some i else none
    | _ => some i

/-- `mov` of a number to a register. -/
def movCode (reg imm : Nat) : List UInt8 :=
  [if 8 ≤ reg then 0x49 else 0x48, UInt8.ofNat (0xB8 + reg % 8)] ++ le 8 imm

/-- What an instruction puts in the literal pool. -/
def Instr.literal : Instr → List UInt8
  | .print text nl => Asm.literal text nl
  | _ => []

/-- The encoding of an instruction at an offset, with the offsets of labels and the address of
its literal. -/
def encode (find : CString → Option Nat) (addr off : Nat) : Instr → List UInt8
  | .plain code => code
  | .sleep ticks => movCode 0 5 ++ movCode 7 ticks ++ [0xCD, 0x80]
  | .exit => movCode 0 2 ++ [0xCD, 0x80]
  | .print text nl =>
      movCode 0 0 ++ movCode 7 addr ++ movCode 6 (Asm.literal text nl).length ++ [0x0F, 0x05]
  | .int imm => [0xCD, UInt8.ofNat imm]
  | .mov reg imm => movCode reg imm
  | .jump op label => op :: le 4 (displacement ((find label).getD 0) (off + 5))

/-- The length of the encoding. -/
def Instr.size : Instr → Nat
  | .plain code => code.length
  | .sleep _ => 22
  | .exit => 12
  | .print _ _ => 32
  | .int _ => 2
  | .mov _ _ => 10
  | .jump _ _ => 5

/-- The encodings of the instructions of a program, from an offset on, with the addresses of
their literals from `addr` on. -/
def encodeAll (find : CString → Option Nat) : Nat → Nat → List Stmt → List UInt8
  | _, _, [] => []
  | addr, off, .label _ :: P => encodeAll find addr off P
  | addr, off, .instr i :: P =>
      encode find addr off i ++ encodeAll find (addr + i.literal.length) (off + i.size) P

/-- The length of the code. -/
def codeSize : List Stmt → Nat
  | [] => 0
  | .label _ :: P => codeSize P
  | .instr i :: P => i.size + codeSize P

/-- The literal pool. -/
def pool : List Stmt → List UInt8
  | [] => []
  | .label _ :: P => pool P
  | .instr i :: P => i.literal ++ pool P

/-- The labels with the offsets of the instructions behind them. -/
def labelsFrom : Nat → List Stmt → List (CString × Nat)
  | _, [] => []
  | off, .label name :: P => (name, off) :: labelsFrom off P
  | off, .instr i :: P => labelsFrom (off + i.size) P

/-- The code of a program: its encodings, and the literal pool behind them. -/
def assemble (P : List Stmt) : List UInt8 :=
  encodeAll (findLabel (labelsFrom 0 P)) (codeBase + codeSize P) 0 P ++ pool P

end NTux.Elf.Asm
