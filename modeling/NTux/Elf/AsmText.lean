import Mathlib.Data.List.TakeWhile
import NTux.Elf.AsmCorrect

/-!
# What a text of the assembler says

The lines of a program, as they are written: labels, jumps to labels, prints of quoted texts, and
lines that are neither.  `compile_source` takes comments off before it looks for quotes, makes the
operand of a jump small but not the label, keeps 31 bytes of a label, and reads an instruction
from the first 127 bytes of its line.

* `Line.raw` — a line written out.
* `Faithful` — every print is read with its text, every label is taken for a new one, and each
  jump leads to the label that it names, or to none if there is none.
* `faithful_iff` — it holds exactly for the programs whose quoted texts have no semicolon and no
  hash and end in time, whose labels do not begin alike, and whose jumps name small labels of 31
  bytes at most.
-/

namespace NTux.Elf.Asm

open NTux.Lib.Fields

/-! ## Programs -/

def semicolon : UInt8 := 59
def hash : UInt8 := 35
def colon : UInt8 := 58

/-- A character of a quoted text, or an escape. -/
inductive Piece
  | plain (c : UInt8)
  | esc (e : UInt8)

/-- How it is written. -/
def Piece.raw : Piece → CString
  | plain c => [c]
  | esc e => [backslash, e]

/-- What it stands for. -/
def Piece.value : Piece → UInt8
  | plain c => c
  | esc e => escape e

/-- It does not end the text or the line, and is no other piece. -/
def Piece.Ok : Piece → Prop
  | plain c => c ≠ quote ∧ c ≠ backslash ∧ c ≠ newline
  | esc e => e ≠ newline

/-- A quoted text without its quotes. -/
def rawBody (body : List Piece) : CString := body.flatMap Piece.raw

/-- What is written in a line between blanks in front and behind. -/
inductive Item
  | label (name : CString)
  | jump (kw gap name : CString)
  | print (kw gap : CString) (body : List Piece)

/-- How it is written; a blank ends a keyword. -/
def Item.text : Item → CString
  | label name => name ++ [colon]
  | jump kw gap name => kw ++ space :: (gap ++ name)
  | print kw gap body => kw ++ space :: (gap ++ quote :: (rawBody body ++ [quote]))

/-- A line. -/
inductive Line
  | item (indent : CString) (it : Item) (trail : CString)
  | other (raw : CString)

/-- How a line is written. -/
def Line.raw : Line → CString
  | item indent it trail => indent ++ (it.text ++ trail)
  | other raw => raw

/-- The blanks of a line. -/
def blank (c : UInt8) : Bool := c == space || c == tab

/-- What is cut off behind. -/
def white (c : UInt8) : Bool := c == space || c == tab || c == 13 || c == newline

/-- A byte that a label may have: no blank, and none of the signs of the language. -/
def NameByte (c : UInt8) : Prop := white c = false ∧ c ∉ [comma, semicolon, hash, colon]

instance : DecidablePred NameByte := fun _ => inferInstanceAs (Decidable (_ ∧ _))

/-- A name of a label. -/
def IsName (name : CString) : Prop := name ≠ [] ∧ ∀ c ∈ name, NameByte c

/-- The keyword is one of these, in letters of any case. -/
def IsKw (kws : List CString) (kw : CString) : Prop := kw.map lower ∈ kws

def jumpKws : List CString := [ascii "jmp", ascii "call"]
def printKws : List CString := [ascii "print", ascii "println"]

/-- A jump must fit into the copy of a line, and a text has 118 characters at most. -/
def Item.Ok : Item → Prop
  | label name => IsName name
  | jump kw gap name => IsKw jumpKws kw ∧ (∀ c ∈ gap, blank c = true) ∧ IsName name ∧
      (jump kw gap name).text.length ≤ 127
  | print kw gap body => IsKw printKws kw ∧ (∀ c ∈ gap, blank c = true) ∧
      (∀ p ∈ body, p.Ok) ∧ body.length ≤ 118

/-- Blanks, and a comment. -/
def TrailOk (trail : CString) : Prop :=
  ∃ ws rest, trail = ws ++ rest ∧ (∀ c ∈ ws, white c = true) ∧
    (rest = [] ∨ ∃ c s, rest = c :: s ∧ (c = semicolon ∨ c = hash))

/-- An instruction that names no label and has no text. -/
def Instr.IsOther : Instr → Prop
  | .print _ _ => False
  | .jump _ _ => False
  | _ => True

/-- The line is what it should be; the others are read as other instructions, or as nothing. -/
def Line.Ok (line : Line) : Prop :=
  newline ∉ line.raw ∧
    match line with
    | item indent it trail => (∀ c ∈ indent, blank c = true) ∧ it.Ok ∧ TrailOk trail
    | other raw => readLine readInstr raw = some [] ∨
        ∃ i, readLine readInstr raw = some [.instr i] ∧ i.IsOther

/-- The label that a line defines. -/
def Line.label? : Line → Option CString
  | item _ (.label name) _ => some name
  | _ => none

/-- The label that a line names. -/
def Line.jump? : Line → Option CString
  | item _ (.jump _ _ name) _ => some name
  | _ => none

/-- The text that a line prints, and whether a line ends behind it. -/
def Line.print? : Line → Option (List UInt8 × Bool)
  | item _ (.print kw _ body) _ => some (body.map Piece.value, kw.map lower = ascii "println")
  | _ => none

/-- A program: no label is defined twice. -/
structure Program where
  lines : List Line
  ok : ∀ line ∈ lines, line.Ok
  distinct : (lines.filterMap Line.label?).Nodup

/-- The text of a program. -/
def Program.source (prog : Program) : CString := terminated newline (prog.lines.map Line.raw)

/-- The labels of a program. -/
def Program.labels (prog : Program) : List CString := prog.lines.filterMap Line.label?

/-- The labels that a program names. -/
def Program.jumps (prog : Program) : List CString := prog.lines.filterMap Line.jump?

/-- What a program prints. -/
def Program.prints (prog : Program) : List (List UInt8 × Bool) := prog.lines.filterMap Line.print?

/-! ## What is expected -/

/-- `find_label` itself: which label it is. -/
def labelIndex (labels : List (CString × Nat)) (name : CString) : Option Nat :=
  labels.findIdx? fun l => l.1 = name

/-- The texts of the prints. -/
def printTexts (P : List Stmt) : List (List UInt8 × Bool) :=
  P.filterMap fun s => match s with
    | .instr (.print text nl) => some (text, nl)
    | _ => none

/-- The program is read as `P`, with the texts as they are meant; each label is taken for a new
one, and each jump finds the label that it names, if there is one.  If the program is compiled,
the texts are what follows its instructions. -/
structure ReadAs (prog : Program) (P : List Stmt) : Prop where
  read : statements readInstr prog.source = some P
  prints : printTexts P = prog.prints
  single : ∀ P₁ name P₂, P = P₁ ++ .label name :: P₂ →
    findLabel (cutLabels (labelsFrom 0 P₁)) name = none
  jumps : (jumpLabels P).map (labelIndex (cutLabels (labelsFrom 0 P))) =
    prog.jumps.map fun name => prog.labels.findIdx? (· = name)
  emitted : ∀ code r, compileSource prog.source code = some r →
    ((List.range r.2).map r.1).drop (codeSize P) = prog.prints.flatMap fun p => literal p.1 p.2

/-- The program is read as it is meant. -/
def Faithful (prog : Program) : Prop := ∃ P, ReadAs prog P

/-- The quoted text has nothing that looks like a comment, and the line fits into its copy. -/
def PrintFits (kw gap : CString) (body : List Piece) : Prop :=
  (∀ c ∈ rawBody body, c ≠ semicolon ∧ c ≠ hash) ∧ (Item.print kw gap body).text.length ≤ 127

/-- Nothing in the program is mistaken. -/
structure Clean (prog : Program) : Prop where
  prints : ∀ indent kw gap body trail, .item indent (.print kw gap body) trail ∈ prog.lines →
    PrintFits kw gap body
  labels : ∀ before name after, prog.labels = before ++ name :: after →
    ∀ l ∈ before, l.take 31 ≠ name
  defined : ∀ name ∈ prog.jumps, name ∈ prog.labels → name.length ≤ 31 ∧ name.map lower = name
  undefined : ∀ name ∈ prog.jumps, name ∉ prog.labels →
    ∀ l ∈ prog.labels, l.take 31 ≠ name.map lower

/-! ## Small letters -/

theorem lower_eq {c d : UInt8} (eq : lower c = d) (apart : d.toNat < 97 ∨ 122 < d.toNat) :
    c = d := by
  unfold lower at eq
  split_ifs at eq with upper
  · rw [UInt8.le_iff_toNat_le, UInt8.le_iff_toNat_le] at upper
    have value := congrArg UInt8.toNat eq
    rw [UInt8.toNat_add] at value
    have low : (65 : UInt8).toNat = 65 := rfl
    have high : (90 : UInt8).toNat = 90 := rfl
    have step : (32 : UInt8).toNat = 32 := rfl
    omega
  · exact eq

/-- A keyword has only letters. -/
theorem notMem_of_isKw {kws : List CString} {kw : CString} {d : UInt8} (isKw : IsKw kws kw)
    (same : lower d = d) (none : ∀ k ∈ kws, d ∉ k) : d ∉ kw := by
  intro mem
  refine none _ isKw ?_
  rw [← same]
  exact List.mem_map.mpr ⟨d, mem, rfl⟩

theorem nameByte_lower {c : UInt8} (ok : NameByte c) : NameByte (lower c) := by
  have keep : ∀ d : UInt8, (d.toNat < 97 ∨ 122 < d.toNat) → c ≠ d → lower c ≠ d :=
    fun d apart ne eq => ne (lower_eq eq apart)
  simp only [NameByte, white, Bool.or_eq_false_iff, beq_eq_false_iff_ne, List.mem_cons,
    List.not_mem_nil, or_false, not_or] at ok ⊢
  obtain ⟨⟨⟨⟨a, b⟩, c'⟩, d⟩, e, f, g, h⟩ := ok
  exact ⟨⟨⟨⟨keep _ (by decide) a, keep _ (by decide) b⟩, keep _ (by decide) c'⟩,
    keep _ (by decide) d⟩, keep _ (by decide) e, keep _ (by decide) f, keep _ (by decide) g,
    keep _ (by decide) h⟩

theorem isName_lower {name : CString} (ok : IsName name) : IsName (name.map lower) := by
  refine ⟨fun nil => ok.1 (List.map_eq_nil_iff.mp nil), fun c small => ?_⟩
  obtain ⟨d, mem, rfl⟩ := List.mem_map.mp small
  exact nameByte_lower (ok.2 d mem)

theorem map_lower_blank {gap : CString} (blanks : ∀ c ∈ gap, blank c = true) :
    gap.map lower = gap := by
  conv_rhs => rw [← List.map_id gap]
  refine List.map_congr_left fun c mem => ?_
  have either := blanks c mem
  simp only [blank, Bool.or_eq_true, beq_iff_eq] at either
  rcases either with rfl | rfl <;> rfl

/-! ## Lines -/

theorem stripComment_append {a b : CString} (clean : ∀ c ∈ a, c ≠ semicolon ∧ c ≠ hash) :
    stripComment (a ++ b) = a ++ stripComment b := by
  refine List.takeWhile_append_of_pos fun c mem => ?_
  have ok := clean c mem
  simpa [semicolon, hash] using ok

theorem stripComment_trail {trail : CString} (ok : TrailOk trail) :
    ∀ c ∈ stripComment trail, white c = true := by
  obtain ⟨ws, rest, rfl, whites, comment⟩ := ok
  have clean : ∀ c ∈ ws, c ≠ semicolon ∧ c ≠ hash := by
    intro c mem
    have isWhite := whites c mem
    constructor <;> rintro rfl <;> exact absurd isWhite (by decide)
  rw [stripComment_append clean]
  rcases comment with rfl | ⟨c, s, rfl, rfl | rfl⟩
  · simpa [stripComment] using whites
  · simpa [stripComment, semicolon] using whites
  · simpa [stripComment, hash] using whites

/-- Cutting white space off behind stops at what is no white space. -/
theorem rtrim_append {x : UInt8} (stop : white x = false) (a b : CString) :
    ((a ++ x :: b).reverse.dropWhile white).reverse =
      a ++ x :: (b.reverse.dropWhile white).reverse := by
  rw [List.reverse_append, List.reverse_cons, List.append_assoc, List.dropWhile_append]
  by_cases nil : (b.reverse.dropWhile white).isEmpty = true
  · rw [if_pos nil, List.isEmpty_iff.mp nil, List.singleton_append,
      List.dropWhile_cons_of_neg (by rw [stop]; decide), List.reverse_cons, List.reverse_reverse]
    rfl
  · rw [if_neg nil, List.reverse_append, List.reverse_append, List.reverse_reverse,
      List.reverse_singleton, List.append_assoc]
    rfl

theorem trim_eq (s : CString) :
    trim s = (s.reverse.dropWhile white).reverse.dropWhile blank := rfl

/-- Blanks in front are cut off, and what is behind the last `x` is cut. -/
theorem trim_append {indent a b : CString} {x y : UInt8} (blanks : ∀ c ∈ indent, blank c = true)
    (first : blank y = false) (stop : white x = false) (head : (a ++ [x]).head? = some y) :
    trim (indent ++ (a ++ x :: b)) = a ++ x :: (b.reverse.dropWhile white).reverse := by
  rw [trim_eq, ← List.append_assoc, rtrim_append stop, List.append_assoc,
    List.dropWhile_append_of_pos blanks]
  cases a with
  | nil =>
      obtain rfl : x = y := Option.some.inj head
      exact List.dropWhile_cons_of_neg (by rw [first]; decide)
  | cons z a =>
      obtain rfl : z = y := Option.some.inj head
      exact List.dropWhile_cons_of_neg (by rw [first]; decide)

theorem blank_clean {gap : CString} (blanks : ∀ c ∈ gap, blank c = true) {d : UInt8}
    (no : blank d = false) : d ∉ gap := by
  intro mem
  rw [blanks d mem] at no
  cases no

theorem blanks_clean {gap : CString} (blanks : ∀ c ∈ gap, blank c = true) :
    ∀ c ∈ gap, c ≠ semicolon ∧ c ≠ hash := by
  intro c mem
  constructor <;> rintro rfl <;> exact blank_clean blanks (by decide) mem

/-- What the assembler sees of a line. -/
theorem line_eq {indent t trail a : CString} {x y : UInt8} (blanks : ∀ c ∈ indent, blank c = true)
    (clean : ∀ c ∈ t, c ≠ semicolon ∧ c ≠ hash) (head : t.head? = some y)
    (first : blank y = false) (last : t = a ++ [x]) (stop : white x = false)
    (trailOk : TrailOk trail) : trim (stripComment (indent ++ (t ++ trail))) = t := by
  have whites : ∀ c ∈ (stripComment trail).reverse, white c = true := fun c mem =>
    stripComment_trail trailOk c (List.mem_reverse.mp mem)
  rw [stripComment_append (blanks_clean blanks), stripComment_append clean]
  rw [last] at head ⊢
  rw [List.append_assoc, List.singleton_append, trim_append blanks first stop head,
    List.dropWhile_eq_nil_iff.mpr whites, List.reverse_nil]

theorem IsName.clean {name : CString} (ok : IsName name) :
    ∀ c ∈ name, c ≠ semicolon ∧ c ≠ hash := by
  intro c mem
  have signs := (ok.2 c mem).2
  simp only [List.mem_cons, not_or] at signs
  exact ⟨signs.2.1, signs.2.2.1⟩

theorem IsName.notMem {name : CString} (ok : IsName name) {d : UInt8} (bad : ¬NameByte d) :
    d ∉ name := fun mem => bad (ok.2 d mem)

/-- A name ends with a byte of a name. -/
theorem IsName.last {name : CString} (ok : IsName name) :
    ∃ a x, name = a ++ [x] ∧ NameByte x := by
  refine ⟨name.dropLast, name.getLast ok.1, (List.dropLast_append_getLast ok.1).symm, ?_⟩
  exact ok.2 _ (List.getLast_mem ok.1)

theorem blank_of_white {c : UInt8} (no : white c = false) : blank c = false := by
  simp only [white, blank, Bool.or_eq_false_iff] at no ⊢
  exact no.1.1

theorem IsName.head {name : CString} (ok : IsName name) :
    ∃ y s, name = y :: s ∧ blank y = false := by
  cases name with
  | nil => exact absurd rfl ok.1
  | cons y s => exact ⟨y, s, rfl, blank_of_white (ok.2 y List.mem_cons_self).1⟩

/-- A name is not trimmed. -/
theorem IsName.trim_eq {name : CString} (ok : IsName name) : trim name = name := by
  obtain ⟨a, x, eq, byte⟩ := ok.last
  obtain ⟨y, s, eq', first⟩ := ok.head
  have head : (a ++ [x]).head? = some y := by
    rw [← eq, eq']
    rfl
  have none : ∀ c ∈ ([] : CString), blank c = true := fun c mem => absurd mem List.not_mem_nil
  rw [eq]
  exact trim_append (b := []) none first byte.1 head

/-- Keywords begin a line. -/
theorem IsKw.head {kws : List CString} {kw : CString} (isKw : IsKw kws kw)
    (some : ∀ k ∈ kws, k ≠ [] ∧ space ∉ k ∧ tab ∉ k) :
    ∃ y s, kw = y :: s ∧ blank y = false := by
  cases kw with
  | nil => exact absurd rfl (some _ isKw).1
  | cons y s =>
      refine ⟨y, s, rfl, ?_⟩
      have noSpace := notMem_of_isKw isKw (d := space) rfl fun k mem => (some k mem).2.1
      have noTab := notMem_of_isKw isKw (d := tab) rfl fun k mem => (some k mem).2.2
      rw [List.mem_cons, not_or] at noSpace noTab
      simp only [blank, Bool.or_eq_false_iff, beq_eq_false_iff_ne]
      exact ⟨Ne.symm noSpace.1, Ne.symm noTab.1⟩

theorem IsKw.clean {kws : List CString} {kw : CString} (isKw : IsKw kws kw)
    (some : ∀ k ∈ kws, semicolon ∉ k ∧ hash ∉ k) : ∀ c ∈ kw, c ≠ semicolon ∧ c ≠ hash := by
  intro c mem
  constructor
  · rintro rfl
    exact notMem_of_isKw isKw rfl (fun k mem => (some k mem).1) mem
  · rintro rfl
    exact notMem_of_isKw isKw rfl (fun k mem => (some k mem).2) mem

/-- The mnemonic is what stands in front of the first space. -/
theorem words_op {op rest : CString} (notMem : space ∉ op) :
    (words (op ++ space :: rest)).op = op := by
  rw [words, cut_append_cons notMem]
  dsimp only
  split <;> rfl

/-! ## Labels and jumps -/

theorem readLine_label {indent name trail : CString} (blanks : ∀ c ∈ indent, blank c = true)
    (ok : IsName name) (trailOk : TrailOk trail) :
    readLine readInstr (indent ++ ((Item.label name).text ++ trail)) = some [.label name] := by
  obtain ⟨y, s, eq, first⟩ := ok.head
  have clean : ∀ c ∈ (Item.label name).text, c ≠ semicolon ∧ c ≠ hash :=
    List.forall_mem_append.mpr ⟨ok.clean, List.forall_mem_singleton.mpr (by decide)⟩
  have line := line_eq blanks clean (y := y) (by rw [Item.text, eq]; rfl) first rfl (by decide)
    trailOk
  unfold readLine
  rw [line]
  dsimp only [Item.text]
  rw [if_neg (by simp), List.getLast?_append_cons, List.dropLast_concat, ok.trim_eq,
    if_neg ok.1]
  rfl

theorem readLine_jump {indent kw gap name trail : CString} (blanks : ∀ c ∈ indent, blank c = true)
    (ok : (Item.jump kw gap name).Ok) (trailOk : TrailOk trail) :
    ∃ op, readLine readInstr (indent ++ ((Item.jump kw gap name).text ++ trail)) =
      some [.instr (.jump op (name.map lower))] := by
  obtain ⟨isKw, blanks', isName, short⟩ := ok
  obtain ⟨y, s, eq, first⟩ := isKw.head (by decide)
  obtain ⟨a, x, eq', byte⟩ := isName.last
  have clean : ∀ c ∈ (Item.jump kw gap name).text, c ≠ semicolon ∧ c ≠ hash :=
    List.forall_mem_append.mpr ⟨isKw.clean (by decide), List.forall_mem_cons.mpr
      ⟨by decide, List.forall_mem_append.mpr ⟨blanks_clean blanks', isName.clean⟩⟩⟩
  have last : (Item.jump kw gap name).text = (kw ++ space :: (gap ++ a)) ++ [x] := by
    rw [Item.text, eq']
    simp
  have line := line_eq blanks clean (y := y) (by rw [Item.text, eq]; rfl) first last byte.1 trailOk
  have noColon : x ≠ colon := by
    rintro rfl
    exact byte.2 (by decide)
  have small : (Item.jump kw gap name).text.map lower =
      kw.map lower ++ space :: (gap ++ name.map lower) := by
    rw [Item.text, List.map_append, List.map_cons, List.map_append, map_lower_blank blanks']
    rfl
  have noSpace : space ∉ kw.map lower := (by decide : ∀ k ∈ jumpKws, space ∉ k) _ isKw
  have isName' := isName_lower isName
  obtain ⟨y', s', eq'', first'⟩ := isName'.head
  have operand : words ((Item.jump kw gap name).text.map lower) =
      ⟨kw.map lower, some (name.map lower), none⟩ := by
    have skip : (gap ++ name.map lower).dropWhile (fun c => c == space || c == tab) =
        name.map lower := by
      change (gap ++ name.map lower).dropWhile blank = _
      rw [List.dropWhile_append_of_pos blanks', eq'']
      exact List.dropWhile_cons_of_neg (by rw [first']; decide)
    rw [small, words, cut_append_cons noSpace]
    dsimp only
    rw [skip, cut_of_notMem (isName'.notMem (by decide)), isName'.trim_eq]
  unfold readLine
  rw [line]
  dsimp only
  rw [if_neg (by rw [last]; simp),
    if_neg (by rw [last, List.getLast?_concat]; simpa [colon] using noColon),
    readInstr, List.take_of_length_le short, operand]
  simp only [jumpKws, IsKw, List.mem_cons, List.not_mem_nil, or_false] at isKw
  rcases isKw with isKw | isKw
  · exact ⟨0xE9, by rw [isKw]; rfl⟩
  · exact ⟨0xE8, by rw [isKw]; rfl⟩

/-! ## Prints -/

theorem quotedFrom_quote (n : Nat) (s : CString) : quotedFrom n (quote :: s) = some [] := by
  rw [quotedFrom.eq_def]
  exact if_pos rfl

theorem quotedFrom_plain {c : UInt8} (noQuote : c ≠ quote) (noBackslash : c ≠ backslash) (n : Nat)
    (s : CString) : quotedFrom n (c :: s) =
      if maxPrintStr ≤ n + 1 then none else (quotedFrom (n + 1) s).map (c :: ·) := by
  rw [quotedFrom.eq_def]
  dsimp only
  rw [if_neg noQuote, if_neg noBackslash]

theorem quotedFrom_esc (n : Nat) (e : UInt8) (s : CString) :
    quotedFrom n (backslash :: e :: s) =
      if maxPrintStr ≤ n + 1 then none else (quotedFrom (n + 1) s).map (escape e :: ·) := by
  rw [quotedFrom.eq_def]
  dsimp only
  rw [if_neg (by decide), if_pos rfl]

/-- A quoted text is read if it is short enough. -/
theorem quotedFrom_body {body : List Piece} (ok : ∀ p ∈ body, p.Ok) {n : Nat}
    (short : n + body.length ≤ 119) (after : CString) :
    quotedFrom n (rawBody body ++ quote :: after) = some (body.map Piece.value) := by
  induction body generalizing n with
  | nil => exact quotedFrom_quote n after
  | cons p body ih =>
      rw [List.forall_mem_cons] at ok
      rw [List.length_cons] at short
      have rest := ih ok.2 (n := n + 1) (by omega)
      have room : ¬maxPrintStr ≤ n + 1 := by
        unfold maxPrintStr
        omega
      rw [rawBody, List.flatMap_cons, ← rawBody]
      cases p with
      | plain c =>
          change quotedFrom n (c :: (rawBody body ++ quote :: after)) = _
          rw [quotedFrom_plain ok.1.1 ok.1.2.1, if_neg room, rest]
          rfl
      | esc e =>
          change quotedFrom n (backslash :: e :: (rawBody body ++ quote :: after)) = _
          rw [quotedFrom_esc, if_neg room, rest]
          rfl

/-- A quoted text that is not ended is not read. -/
theorem quotedFrom_part {body : List Piece} (ok : ∀ p ∈ body, p.Ok) {part : CString}
    (isPart : part <+: rawBody body) (n : Nat) : quotedFrom n part = none := by
  induction body generalizing part n with
  | nil =>
      obtain rfl := List.prefix_nil.mp isPart
      rw [quotedFrom.eq_def]
  | cons p body ih =>
      rw [List.forall_mem_cons] at ok
      rw [rawBody, List.flatMap_cons, ← rawBody] at isPart
      cases part with
      | nil => rw [quotedFrom.eq_def]
      | cons c part =>
          cases p with
          | plain d =>
              obtain ⟨rfl, rest⟩ := List.cons_prefix_cons.mp isPart
              rw [quotedFrom_plain ok.1.1 ok.1.2.1, ih ok.2 rest]
              split <;> rfl
          | esc e =>
              obtain ⟨rfl, rest⟩ := List.cons_prefix_cons.mp isPart
              cases part with
              | nil =>
                  rw [quotedFrom.eq_def]
                  dsimp only
                  rw [if_neg (by decide), if_pos rfl]
                  split <;> rfl
              | cons e' part =>
                  obtain ⟨rfl, rest'⟩ := List.cons_prefix_cons.mp rest
                  rw [quotedFrom_esc, ih ok.2 rest']
                  split <;> rfl

theorem notMem_gap {kw gap : CString} {kws : List CString} (isKw : IsKw kws kw)
    (none : ∀ k ∈ kws, quote ∉ k) (blanks : ∀ c ∈ gap, blank c = true) :
    quote ∉ kw ++ space :: gap := by
  rw [List.mem_append, List.mem_cons, not_or, not_or]
  exact ⟨notMem_of_isKw isKw rfl none, by decide, blank_clean blanks (by decide)⟩

/-- The part of a print in front of the quote that ends its text. -/
def openText (kw gap : CString) (body : List Piece) : CString :=
  (kw ++ space :: gap) ++ quote :: rawBody body

theorem text_eq (kw gap : CString) (body : List Piece) :
    (Item.print kw gap body).text = openText kw gap body ++ [quote] := by
  simp [Item.text, openText]

theorem parseQuotedText_part {kw gap part : CString} {body : List Piece} (isKw : IsKw printKws kw)
    (blanks : ∀ c ∈ gap, blank c = true) (ok : ∀ p ∈ body, p.Ok)
    (isPart : part <+: openText kw gap body) : parseQuotedText part = none := by
  obtain ⟨t, eq⟩ := isPart
  unfold parseQuotedText
  cases found : cut quote part with
  | none => rfl
  | some r =>
      obtain ⟨a, s⟩ := r
      have whole := cut_append found t
      rw [eq, openText, cut_append_cons (notMem_gap isKw (by decide) blanks)] at whole
      have left : rawBody body = s ++ t := congrArg Prod.snd (Option.some.inj whole)
      exact quotedFrom_part ok ⟨t, left.symm⟩ 0

/-- The test on the mnemonic of a print. -/
theorem instrOf_print {kw : CString} (isKw : IsKw printKws kw) {number : CString → Option Nat}
    {w : Words} (op : w.op = kw.map lower) (label text : CString) :
    instrOf number w label text =
      (parseQuotedText text).map (.print · (kw.map lower = ascii "println")) := by
  obtain ⟨op', a1, a2⟩ := w
  dsimp only at op
  subst op
  simp only [printKws, IsKw, List.mem_cons, List.not_mem_nil, or_false] at isKw
  rcases isKw with isKw | isKw <;> rw [isKw] <;> rfl

theorem readInstr_print {kw : CString} (isKw : IsKw printKws kw) (rest : CString) :
    readInstr (kw ++ space :: rest) =
      (parseQuotedText ((kw ++ space :: rest).take 127)).map
        (.print · (kw.map lower = ascii "println")) := by
  have noSpace : space ∉ kw.map lower := (by decide : ∀ k ∈ printKws, space ∉ k) _ isKw
  have length : (kw.map lower).length ≤ 7 := (by decide : ∀ k ∈ printKws, k.length ≤ 7) _ isKw
  rw [List.length_map] at length
  obtain ⟨r, cutEq⟩ : ∃ r, (kw ++ space :: rest).take 127 = kw ++ space :: r := by
    obtain ⟨k, eq⟩ : ∃ k, 127 - kw.length = k + 1 := ⟨126 - kw.length, by omega⟩
    exact ⟨rest.take k, by rw [List.take_append, List.take_of_length_le (by omega), eq]; rfl⟩
  rw [readInstr, cutEq]
  refine instrOf_print isKw ?_ _ _
  rw [List.map_append, List.map_cons]
  exact words_op noSpace

/-- A print has no comment if its text has none. -/
theorem print_clean {kw gap : CString} {body : List Piece} (isKw : IsKw printKws kw)
    (blanks : ∀ c ∈ gap, blank c = true) (clean : ∀ c ∈ rawBody body, c ≠ semicolon ∧ c ≠ hash) :
    ∀ c ∈ (Item.print kw gap body).text, c ≠ semicolon ∧ c ≠ hash := by
  rw [text_eq]
  refine List.forall_mem_append.mpr ⟨List.forall_mem_append.mpr
    ⟨List.forall_mem_append.mpr ⟨isKw.clean (by decide), List.forall_mem_cons.mpr
      ⟨by decide, blanks_clean blanks⟩⟩, List.forall_mem_cons.mpr ⟨by decide, clean⟩⟩, ?_⟩
  exact List.forall_mem_singleton.mpr (by decide)

/-- A print that fits is read with its text. -/
theorem readLine_print {indent kw gap trail : CString} {body : List Piece}
    (blanks : ∀ c ∈ indent, blank c = true) (ok : (Item.print kw gap body).Ok)
    (trailOk : TrailOk trail) (fits : PrintFits kw gap body) :
    readLine readInstr (indent ++ ((Item.print kw gap body).text ++ trail)) =
      some [.instr (.print (body.map Piece.value) (kw.map lower = ascii "println"))] := by
  obtain ⟨isKw, blanks', pieces, short⟩ := ok
  obtain ⟨clean', length⟩ := fits
  obtain ⟨y, s, eq, first⟩ := isKw.head (by decide)
  have last := text_eq kw gap body
  have line := line_eq blanks (print_clean isKw blanks' clean') (y := y)
    (by rw [Item.text, eq]; rfl) first last (by decide) trailOk
  have parsed : parseQuotedText (Item.print kw gap body).text = some (body.map Piece.value) := by
    rw [parseQuotedText, last, openText, List.append_assoc, List.cons_append,
      cut_append_cons (notMem_gap isKw (by decide) blanks')]
    exact quotedFrom_body pieces (by omega) []
  unfold readLine
  rw [line]
  dsimp only
  rw [if_neg (by rw [last]; simp), if_neg (by rw [last, List.getLast?_concat]; decide)]
  have read := readInstr_print isKw (gap ++ quote :: (rawBody body ++ [quote]))
  change readInstr (Item.print kw gap body).text = _ at read
  rw [read]
  change Option.map _ (Option.map _ (parseQuotedText ((Item.print kw gap body).text.take 127))) = _
  rw [List.take_of_length_le length, parsed]
  rfl

/-- A comment in a text ends the line in the text. -/
theorem stripComment_prefix {a : CString} (comment : ¬∀ c ∈ a, c ≠ semicolon ∧ c ≠ hash)
    (b : CString) : stripComment (a ++ b) <+: a := by
  unfold stripComment
  rw [List.takeWhile_append]
  split_ifs with whole
  · refine absurd (fun c mem => ?_) comment
    have front := List.takeWhile_prefix (fun c => c != 59 && c != 35) (l := a)
    have keep := List.takeWhile_eq_self_iff.mp (front.eq_of_length whole) c mem
    simpa [semicolon, hash] using keep
  · exact List.takeWhile_prefix _

/-- A print that does not fit is not read, or read as a label. -/
theorem readLine_print_bad {indent kw gap trail : CString} {body : List Piece}
    (blanks : ∀ c ∈ indent, blank c = true) (ok : (Item.print kw gap body).Ok)
    (trailOk : TrailOk trail) (bad : ¬PrintFits kw gap body) {S : List Stmt}
    (read : readLine readInstr (indent ++ ((Item.print kw gap body).text ++ trail)) = some S) :
    printTexts S = [] := by
  obtain ⟨isKw, blanks', pieces, short⟩ := ok
  obtain ⟨y, s, eq, first⟩ := isKw.head (by decide)
  -- what is left of the line has no quote at the end, or loses it in the copy
  obtain ⟨rest, line, isPart⟩ : ∃ rest,
      trim (stripComment (indent ++ ((Item.print kw gap body).text ++ trail))) =
        kw ++ space :: rest ∧ (kw ++ space :: rest).take 127 <+: openText kw gap body := by
    by_cases clean' : ∀ c ∈ rawBody body, c ≠ semicolon ∧ c ≠ hash
    · have long : 127 < (Item.print kw gap body).text.length := by
        by_contra le
        exact bad ⟨clean', Nat.le_of_not_lt le⟩
      have last := text_eq kw gap body
      refine ⟨_, line_eq blanks (print_clean isKw blanks' clean') (y := y)
        (by rw [Item.text, eq]; rfl) first last (by decide) trailOk, ?_⟩
      change (Item.print kw gap body).text.take 127 <+: openText kw gap body
      rw [last, List.length_append, List.length_singleton] at long
      rw [last, List.take_append_of_le_length (by omega)]
      exact List.take_prefix _ _
    · have front : ∀ c ∈ indent ++ ((kw ++ space :: gap) ++ [quote]),
          c ≠ semicolon ∧ c ≠ hash :=
        List.forall_mem_append.mpr ⟨blanks_clean blanks, List.forall_mem_append.mpr
          ⟨List.forall_mem_append.mpr ⟨isKw.clean (by decide), List.forall_mem_cons.mpr
            ⟨by decide, blanks_clean blanks'⟩⟩, List.forall_mem_singleton.mpr (by decide)⟩⟩
      have left := stripComment_prefix clean' ([quote] ++ trail)
      have split : indent ++ ((Item.print kw gap body).text ++ trail) =
          (indent ++ ((kw ++ space :: gap) ++ [quote])) ++
            (rawBody body ++ ([quote] ++ trail)) := by
        simp [Item.text]
      have head : ((kw ++ space :: gap) ++ [quote]).head? = some y := by
        rw [eq]
        rfl
      have stripped := stripComment_append front (b := rawBody body ++ ([quote] ++ trail))
      rw [← split] at stripped
      generalize stripComment (rawBody body ++ ([quote] ++ trail)) = p at left stripped
      have part : (p.reverse.dropWhile white).reverse <+: p := by
        have suffix := List.reverse_prefix.mpr (List.dropWhile_suffix white (l := p.reverse))
        rwa [List.reverse_reverse] at suffix
      refine ⟨gap ++ quote :: (p.reverse.dropWhile white).reverse, ?_, ?_⟩
      · rw [stripped, List.append_assoc, List.append_assoc _ [quote], List.singleton_append,
          trim_append blanks first (by decide) head, List.append_assoc, List.cons_append]
      · have whole : (kw ++ space :: gap) ++ quote :: (p.reverse.dropWhile white).reverse <+:
            openText kw gap body :=
          (List.prefix_append_right_inj _).mpr
            (List.cons_prefix_cons.mpr ⟨rfl, part.trans left⟩)
        rw [List.append_assoc, List.cons_append] at whole
        exact .trans ( List.take_prefix _ _) whole
  unfold readLine at read
  rw [line] at read
  dsimp only at read
  rw [if_neg (by simp)] at read
  split_ifs at read
  · cases read
    rfl
  · cases read
    rfl
  · rw [readInstr_print isKw, parseQuotedText_part isKw blanks' pieces isPart] at read
    cases read

/-! ## All lines -/

/-- The labels of a program. -/
def labelNames (P : List Stmt) : List CString :=
  P.filterMap fun s => match s with
    | .label name => some name
    | _ => none

/-- The line is no print that does not fit. -/
def Line.Good (line : Line) : Prop :=
  ∀ indent kw gap body trail, line = .item indent (.print kw gap body) trail → PrintFits kw gap body

/-- What a line is read as. -/
structure LineRead (line : Line) (S : List Stmt) : Prop where
  read : readLine readInstr line.raw = some S
  prints : printTexts S = line.print?.toList
  labels : labelNames S = line.label?.toList
  jumps : jumpLabels S = (line.jump?.map (List.map lower)).toList

theorem Line.read_good {line : Line} (ok : line.Ok) (good : line.Good) : ∃ S, LineRead line S := by
  obtain ⟨-, ok⟩ := ok
  cases line with
  | item indent it trail =>
      obtain ⟨blanks, itemOk, trailOk⟩ := ok
      cases it with
      | label name => exact ⟨_, readLine_label blanks itemOk trailOk, rfl, rfl, rfl⟩
      | jump kw gap name =>
          obtain ⟨op, read⟩ := readLine_jump blanks itemOk trailOk
          exact ⟨_, read, rfl, rfl, rfl⟩
      | print kw gap body =>
          exact ⟨_, readLine_print blanks itemOk trailOk (good _ _ _ _ _ rfl), rfl, rfl, rfl⟩
  | other raw =>
      rcases ok with read | ⟨i, read, isOther⟩
      · exact ⟨_, read, rfl, rfl, rfl⟩
      · cases i with
        | print text nl => exact False.elim isOther
        | jump op name => exact False.elim isOther
        | _ => exact ⟨_, read, rfl, rfl, rfl⟩

theorem Line.read_bad {line : Line} (ok : line.Ok) (bad : ¬line.Good) {S : List Stmt}
    (read : readLine readInstr line.raw = some S) : printTexts S = [] ∧ line.print?.isSome := by
  simp only [Line.Good, not_forall] at bad
  obtain ⟨indent, kw, gap, body, trail, rfl, bad⟩ := bad
  obtain ⟨-, blanks, itemOk, trailOk⟩ := ok
  exact ⟨readLine_print_bad blanks itemOk trailOk bad read, rfl⟩

/-- The lines are read one by one. -/
def readAll (lines : List Line) : Option (List Stmt) :=
  ((lines.map Line.raw).mapM (readLine readInstr)).map List.flatten

theorem readAll_cons (line : Line) (lines : List Line) :
    readAll (line :: lines) =
      (readLine readInstr line.raw).bind fun S => (readAll lines).map (S ++ ·) := by
  unfold readAll
  rw [List.map_cons, List.mapM_cons]
  cases readLine readInstr line.raw with
  | none => rfl
  | some S =>
      cases (lines.map Line.raw).mapM (readLine readInstr) <;> rfl

theorem pieces_terminated {α : Type} [DecidableEq α] {c : α} {parts : List (List α)}
    (clean : ∀ p ∈ parts, c ∉ p) : pieces c (terminated c parts) = parts := by
  induction parts with
  | nil => rfl
  | cons p parts ih =>
      rw [List.forall_mem_cons] at clean
      rw [terminated_cons, pieces_append_cons clean.1, ih clean.2]

theorem Program.statements_eq (prog : Program) :
    statements readInstr prog.source = readAll prog.lines := by
  have clean : ∀ raw ∈ prog.lines.map Line.raw, newline ∉ raw := by
    intro raw written
    obtain ⟨line, mem, rfl⟩ := List.mem_map.mp written
    exact (prog.ok line mem).1
  rw [statements, Program.source, pieces_terminated clean, readAll]

/-- Lines of which no print is mistaken. -/
theorem readAll_good {lines : List Line} (ok : ∀ line ∈ lines, line.Ok)
    (good : ∀ line ∈ lines, line.Good) :
    ∃ P, readAll lines = some P ∧ printTexts P = lines.filterMap Line.print? ∧
      labelNames P = lines.filterMap Line.label? ∧
      jumpLabels P = (lines.filterMap Line.jump?).map (List.map lower) := by
  induction lines with
  | nil => exact ⟨[], rfl, rfl, rfl, rfl⟩
  | cons line lines ih =>
      rw [List.forall_mem_cons] at ok good
      obtain ⟨S, read, prints, labels, jumps⟩ := line.read_good ok.1 good.1
      obtain ⟨P, read', prints', labels', jumps'⟩ := ih ok.2 good.2
      refine ⟨S ++ P, by rw [readAll_cons, read, read']; rfl, ?_, ?_, ?_⟩
      · rw [printTexts, List.filterMap_append, ← printTexts, ← printTexts, prints, prints',
          List.filterMap_cons]
        cases line.print? <;> rfl
      · rw [labelNames, List.filterMap_append, ← labelNames, ← labelNames, labels, labels',
          List.filterMap_cons]
        cases line.label? <;> rfl
      · rw [jumpLabels, List.filterMap_append, ← jumpLabels, ← jumpLabels, jumps, jumps',
          List.filterMap_cons]
        cases line.jump? <;> rfl

/-- No line is read as more prints than it is, and a print that does not fit as none. -/
theorem readAll_prints {lines : List Line} (ok : ∀ line ∈ lines, line.Ok) {P : List Stmt}
    (read : readAll lines = some P) :
    (printTexts P).length ≤ (lines.filterMap Line.print?).length ∧
      ((printTexts P).length = (lines.filterMap Line.print?).length →
        ∀ line ∈ lines, line.Good) := by
  induction lines generalizing P with
  | nil =>
      cases read
      exact ⟨Nat.le_refl 0, fun _ line mem => absurd mem List.not_mem_nil⟩
  | cons line lines ih =>
      rw [List.forall_mem_cons] at ok
      rw [readAll_cons, Option.bind_eq_some_iff] at read
      obtain ⟨S, first, rest⟩ := read
      obtain ⟨P, read', rfl⟩ := Option.map_eq_some_iff.mp rest
      obtain ⟨le, all⟩ := ih ok.2 read'
      have count : (printTexts (S ++ P)).length =
          (printTexts S).length + (printTexts P).length := by
        rw [printTexts, List.filterMap_append, List.length_append]
        rfl
      have count' : ((line :: lines).filterMap Line.print?).length =
          line.print?.toList.length + (lines.filterMap Line.print?).length := by
        rw [List.filterMap_cons]
        cases line.print? with
        | none => exact (Nat.zero_add _).symm
        | some p => exact Nat.add_comm _ 1
      rw [count, count', List.forall_mem_cons]
      by_cases good : line.Good
      · obtain ⟨S', read, prints, -, -⟩ := line.read_good ok.1 good
        obtain rfl : S = S' := Option.some.inj (first.symm.trans read)
        rw [prints]
        exact ⟨by omega, fun eq => ⟨good, all (by omega)⟩⟩
      · obtain ⟨none, one⟩ := line.read_bad ok.1 good first
        obtain ⟨p, eq⟩ := Option.isSome_iff_exists.mp one
        rw [none, eq, Option.toList_some, List.length_nil, List.length_singleton]
        exact ⟨by omega, fun same => by omega⟩

/-! ## Labels -/

theorem labelsFrom_names (off : Nat) (P : List Stmt) :
    (labelsFrom off P).map Prod.fst = labelNames P := by
  induction P generalizing off with
  | nil => rfl
  | cons s P ih =>
      cases s with
      | label name =>
          rw [labelsFrom, List.map_cons, ih]
          rfl
      | instr i => exact ih (off + i.size)

theorem cutLabels_names (off : Nat) (P : List Stmt) :
    (cutLabels (labelsFrom off P)).map Prod.fst = (labelNames P).map (List.take 31) := by
  rw [cutLabels, List.map_map, ← labelsFrom_names off P, List.map_map]
  rfl

/-- The table of the first pass is searched as the names are. -/
theorem labelIndex_eq (P : List Stmt) (name : CString) :
    labelIndex (cutLabels (labelsFrom 0 P)) name =
      (labelNames P).findIdx? fun l => l.take 31 = name := by
  have names : labelIndex (cutLabels (labelsFrom 0 P)) name =
      ((cutLabels (labelsFrom 0 P)).map Prod.fst).findIdx? (· = name) := by
    rw [List.findIdx?_map]
    rfl
  rw [names, cutLabels_names, List.findIdx?_map]
  rfl

theorem findLabel_eq_none_iff (P : List Stmt) (name : CString) :
    findLabel (cutLabels (labelsFrom 0 P)) name = none ↔ ∀ l ∈ labelNames P, l.take 31 ≠ name := by
  rw [findLabel, Option.map_eq_none_iff, List.find?_eq_none]
  constructor
  · intro none l mem
    have cut : l.take 31 ∈ (cutLabels (labelsFrom 0 P)).map Prod.fst := by
      rw [cutLabels_names]
      exact List.mem_map.mpr ⟨l, mem, rfl⟩
    obtain ⟨r, mem, eq⟩ := List.mem_map.mp cut
    have differ := none r mem
    rw [← eq]
    simpa using differ
  · intro none r mem
    have cut : r.1 ∈ (labelNames P).map (List.take 31) := by
      rw [← cutLabels_names 0 P]
      exact List.mem_map.mpr ⟨r, mem, rfl⟩
    obtain ⟨l, mem, eq⟩ := List.mem_map.mp cut
    have differ := none l mem
    rw [eq] at differ
    simpa using differ

/-- Each label is taken for a new one exactly if none is the beginning of one before it. -/
theorem single_iff (P : List Stmt) :
    (∀ P₁ name P₂, P = P₁ ++ .label name :: P₂ →
      findLabel (cutLabels (labelsFrom 0 P₁)) name = none) ↔
    ∀ before name after, labelNames P = before ++ name :: after →
      ∀ l ∈ before, l.take 31 ≠ name := by
  simp only [findLabel_eq_none_iff]
  constructor
  · intro single before name after eq
    obtain ⟨P₁, Q, rfl, rfl, eq'⟩ := List.filterMap_eq_append_iff.mp eq
    obtain ⟨R, s, P₂, rfl, skip, label, rfl⟩ := List.filterMap_eq_cons_iff.mp eq'
    cases s with
    | instr i => cases label
    | label name' =>
        cases label
        have found := single (P₁ ++ R) name P₂ (by rw [List.append_assoc])
        intro l mem
        refine found l ?_
        rw [labelNames, List.filterMap_append]
        exact List.mem_append_left _ mem
  · rintro single P₁ name P₂ rfl
    refine single (labelNames P₁) name (labelNames P₂) ?_
    rw [labelNames, List.filterMap_append]
    rfl

/-- The name of a label leads to it exactly if it is small and not cut, and another name leads
nowhere exactly if no label begins with it. -/
theorem findIdx?_cut_iff {names : List CString} {name : CString}
    (single : ∀ before name after, names = before ++ name :: after →
      ∀ l ∈ before, l.take 31 ≠ name) :
    (names.findIdx? fun l => l.take 31 = name.map lower) = names.findIdx? (· = name) ↔
      (name ∈ names → name.length ≤ 31 ∧ name.map lower = name) ∧
      (name ∉ names → ∀ l ∈ names, l.take 31 ≠ name.map lower) := by
  by_cases mem : name ∈ names
  · simp only [mem, true_implies, not_true_eq_false, false_implies, and_true]
    obtain ⟨before, after, rfl, fresh⟩ := List.eq_append_cons_of_mem mem
    have index : (before ++ name :: after).findIdx? (· = name) = some before.length := by
      have skip : before.findIdx? (· = name) = none := by
        refine List.findIdx?_eq_none_iff.mpr fun l early => decide_eq_false ?_
        rintro rfl
        exact fresh early
      rw [List.findIdx?_append, skip, List.findIdx?_cons]
      simp
    rw [index]
    constructor
    · intro found
      have hit := List.findIdx?_eq_some_iff_getElem.mp found
      obtain ⟨lt, same, -⟩ := hit
      rw [List.getElem_append_right (Nat.le_refl _)] at same
      simp only [Nat.sub_self, List.getElem_cons_zero, decide_eq_true_eq] at same
      have length := congrArg List.length same
      rw [List.length_take, List.length_map] at length
      have short : name.length ≤ 31 := by omega
      rw [List.take_of_length_le short] at same
      exact ⟨short, same.symm⟩
    · rintro ⟨short, small⟩
      have skip : (before.findIdx? fun l => l.take 31 = name) = none :=
        List.findIdx?_eq_none_iff.mpr fun l early =>
          decide_eq_false (single before name after rfl l early)
      rw [small, List.findIdx?_append, skip, List.findIdx?_cons]
      simp [List.take_of_length_le short]
  · simp only [mem, false_implies, not_false_eq_true, true_implies, true_and]
    have none : names.findIdx? (· = name) = none := by
      refine List.findIdx?_eq_none_iff.mpr fun l mem' => decide_eq_false ?_
      rintro rfl
      exact mem mem'
    rw [none, List.findIdx?_eq_none_iff]
    simp only [decide_eq_false_iff_not, ne_eq]

theorem pool_eq (P : List Stmt) : pool P = (printTexts P).flatMap fun p => literal p.1 p.2 := by
  induction P with
  | nil => rfl
  | cons s P ih =>
      cases s with
      | label name => exact ih
      | instr i =>
          rw [pool, ih]
          cases i <;> rfl

/-- What is compiled ends with the texts that are read. -/
theorem compileSource_texts {src : CString} {P : List Stmt} {code : Nat → UInt8}
    {r : (Nat → UInt8) × Nat} (read : statements readInstr src = some P)
    (accepted : compileSource src code = some r) :
    ((List.range r.2).map r.1).drop (codeSize P) =
      (printTexts P).flatMap fun p => literal p.1 p.2 := by
  obtain ⟨P', x, y, read', compiled⟩ := compiled accepted
  obtain rfl : P = P' := Option.some.inj (read.symm.trans read')
  rw [compiled.bytes, List.drop_left' (encodeAll_length _ _ _ _), pool_eq]

/-- A program is read as it is meant exactly if nothing in it is mistaken. -/
theorem faithful_iff (prog : Program) : Faithful prog ↔ Clean prog := by
  constructor
  · rintro ⟨P, read, prints, single, jumps, -⟩
    rw [prog.statements_eq] at read
    have good := (readAll_prints prog.ok read).2 (congrArg List.length prints)
    obtain ⟨P', read', -, labels', jumps'⟩ := readAll_good prog.ok good
    obtain rfl : P = P' := Option.some.inj (read.symm.trans read')
    rw [single_iff, labels'] at single
    rw [jumps', List.map_map] at jumps
    have each : ∀ name ∈ prog.jumps,
        (name ∈ prog.labels → name.length ≤ 31 ∧ name.map lower = name) ∧
          (name ∉ prog.labels → ∀ l ∈ prog.labels, l.take 31 ≠ name.map lower) := by
      intro name mem
      have index := List.map_inj_left.mp jumps name mem
      rw [Function.comp_apply, labelIndex_eq, labels'] at index
      exact (findIdx?_cut_iff single).mp index
    refine ⟨fun indent kw gap body trail mem => good _ mem _ _ _ _ _ rfl, single, ?_, ?_⟩
    · exact fun name mem => (each name mem).1
    · exact fun name mem => (each name mem).2
  · rintro ⟨prints, single, defined, undefined⟩
    have good : ∀ line ∈ prog.lines, line.Good := by
      rintro line mem indent kw gap body trail rfl
      exact prints _ _ _ _ _ mem
    obtain ⟨P, read, prints', labels', jumps'⟩ := readAll_good prog.ok good
    have read' := prog.statements_eq.trans read
    refine ⟨P, read', prints', ?_, ?_, fun code r accepted => ?_⟩
    · rw [single_iff, labels']
      exact single
    · rw [jumps', List.map_map]
      refine List.map_inj_left.mpr fun name mem => ?_
      refine (labelIndex_eq P _).trans ?_
      rw [labels']
      exact (findIdx?_cut_iff single).mpr ⟨defined name mem, undefined name mem⟩
    · rw [compileSource_texts read' accepted, prints']
      rfl

/-- A jump to a label with a capital letter. -/
def capitalLoop : Program where
  lines :=
    [.item [] (.label (ascii "Loop")) [], .item [] (.jump (ascii "jmp") [] (ascii "Loop")) []]
  ok := by
    have noTrail : TrailOk [] := ⟨[], [], rfl, by simp, .inl rfl⟩
    have bytes : (ascii "Loop").all (fun c => decide (NameByte c)) = true := by decide
    have isName : IsName (ascii "Loop") :=
      ⟨by decide, fun c mem => of_decide_eq_true (List.all_eq_true.mp bytes c mem)⟩
    have isKw : IsKw jumpKws (ascii "jmp") := (by decide : (ascii "jmp").map lower ∈ jumpKws)
    refine List.forall_mem_cons.mpr ⟨⟨by decide, by simp, isName, noTrail⟩,
      List.forall_mem_singleton.mpr ⟨by decide, by simp, ?_, noTrail⟩⟩
    exact ⟨isKw, by simp, isName, by decide⟩
  distinct := by decide

/-- The label is not found. -/
theorem capital_label_lost : ¬Faithful capitalLoop := by
  rintro ⟨P, read, -, -, jumps, -⟩
  have program : statements readInstr capitalLoop.source =
      some [.label (ascii "Loop"), .instr (.jump 0xE9 (ascii "loop"))] := by decide +kernel
  obtain rfl := Option.some.inj (read.symm.trans program)
  exact absurd jumps (by decide)

end NTux.Elf.Asm
