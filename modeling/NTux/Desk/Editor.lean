import NTux.Fs.Vfs
import NTux.Lib.Runs
import Mathlib.Data.List.TakeWhile

/-!
# The editor

`load_file`, `save_file` and the edits of `editor.c`.  A document is a table of lines, each of
which ends with a NUL; what is lost when a file is read is lost when it is written.

* `loadFile`, `savedText`, `docStep` — the code.
* `EditText` — the text of the file as lines and the line ends between them, to which the edits
  are made where the cursor is.
* `EditorExact` — what is saved is that text.
* `editor_exact_iff` — exactly for the files that are loaded whole and whose line ends other
  than a line feed have been deleted.
-/

namespace NTux.Desk

open NTux.Fs NTux.Lib

/-! ## The code -/

/-- `EDIT_MAX_LINES`. -/
def editMaxLines : Nat := 512

/-- `EDIT_LINE_LEN`. -/
def editLineLen : Nat := 256

/-- A line as the loop of `load_file` finds it: its bytes, its end, and what is behind it. -/
structure FoundLine where
  raw : CString
  ending : CString
  rest : CString

/-- The bytes up to a `\n` or `\r`, and the end: `\r`, `\n` or both. -/
def foundLine (buf : CString) : FoundLine :=
  let raw := buf.takeWhile fun c => c ≠ 10 && c ≠ 13
  let rest := buf.drop raw.length
  let cr := if rest.head? = some 13 then [13] else []
  let lf := if (rest.drop cr.length).head? = some 10 then [10] else []
  ⟨raw, cr ++ lf, rest.drop (cr ++ lf).length⟩

/-- What a line of the table holds before its NUL. -/
def tableLine (raw : CString) : CString := (raw.take (editLineLen - 1)).takeWhile (· ≠ 0)

/-- The loop of `load_file`, with room for `n` more lines. -/
def loadLines : Nat → CString → List CString
  | 0, _ => []
  | n + 1, buf =>
      if buf = [] then []
      else tableLine (foundLine buf).raw :: loadLines n (foundLine buf).rest

/-- The lines before `g_line_count`, and the cursor. -/
structure Doc where
  lines : List CString
  curLine : Nat
  curCol : Nat

/-- `load_file` for a file that can be read: the second read fails for one of more than
128 KiB. -/
def loadFile (file : CString) : Option Doc :=
  if 128 * 1024 < file.length then none
  else
    let lines := loadLines editMaxLines file
    some ⟨if lines = [] then [[]] else lines, 0, 0⟩

/-- The loop of `save_file`, with `used` bytes in the buffer. -/
def saveLines (used : Nat) : List CString → CString
  | [] => []
  | l :: ls =>
      -- the buffer is full: the rest is not stored
      if 160 * 1024 ≤ used + l.length + 2 then []
      else if ls = [] then l
      else l ++ 10 :: saveLines (used + l.length + 1) ls

/-- What `save_file` stores. -/
def savedText (d : Doc) : CString := saveLines 0 d.lines

/-- The line of an index is replaced. -/
def atLine (f : CString → List CString) : Nat → List CString → List CString
  | _, [] => []
  | 0, a :: as => f a ++ as
  | l + 1, a :: as => a :: atLine f l as

/-- A line and the next one are joined. -/
def joinAt : Nat → List CString → List CString
  | 0, a :: b :: as => (a ++ b) :: as
  | l + 1, a :: as => a :: joinAt l as
  | _, as => as

/-- The line with a character put in. -/
def withChar (col : Nat) (c : UInt8) (a : CString) : List CString := [a.take col ++ c :: a.drop col]

/-- The two parts of a line. -/
def broken (col : Nat) (a : CString) : List CString := [a.take col, a.drop col]

/-- The line without the character before the column. -/
def withoutChar (col : Nat) (a : CString) : List CString := [a.take (col - 1) ++ a.drop col]

/-- The line of the cursor. -/
def Doc.line (d : Doc) : CString := d.lines.getD d.curLine []

/-- `clamp_cursor`. -/
def clampCursor (d : Doc) : Doc :=
  let l := min d.curLine (d.lines.length - 1)
  { d with curLine := l, curCol := min d.curCol (d.lines.getD l []).length }

/-- `insert_char`. -/
def insertChar (c : UInt8) (d : Doc) : Doc :=
  if editLineLen ≤ d.line.length + 1 then d
  else
    let col := min d.curCol d.line.length
    { d with lines := atLine (withChar col c) d.curLine d.lines, curCol := col + 1 }

/-- `newline_char`. -/
def newlineChar (d : Doc) : Doc :=
  if editMaxLines ≤ d.lines.length then d
  else
    let col := min d.curCol d.line.length
    ⟨atLine (broken col) d.curLine d.lines, d.curLine + 1, 0⟩

/-- `backspace_char`. -/
def backspaceChar (d : Doc) : Doc :=
  if 0 < d.curCol then
    { d with lines := atLine (withoutChar d.curCol) d.curLine d.lines, curCol := d.curCol - 1 }
  else if d.curLine = 0 then d
  else
    let prev := d.lines.getD (d.curLine - 1) []
    if editLineLen ≤ prev.length + d.line.length then d
    else ⟨joinAt (d.curLine - 1) d.lines, d.curLine - 1, prev.length⟩

/-- `move_left`. -/
def moveLeft (d : Doc) : Doc :=
  if 0 < d.curCol then { d with curCol := d.curCol - 1 }
  else if 0 < d.curLine then
    { d with curLine := d.curLine - 1, curCol := (d.lines.getD (d.curLine - 1) []).length }
  else d

/-- `move_right`. -/
def moveRight (d : Doc) : Doc :=
  if d.curCol < d.line.length then { d with curCol := d.curCol + 1 }
  else if d.curLine + 1 < d.lines.length then { d with curLine := d.curLine + 1, curCol := 0 }
  else d

/-- What the keys do between opening and saving. -/
inductive EditEvent where
  | up
  | down
  | left
  | right
  | char (c : UInt8)
  | newline
  | backspace
  deriving DecidableEq

/-- A turn of the loop of `ntux_user_entry`: the cursor is clamped before an edit. -/
def docStep (d : Doc) : EditEvent → Doc
  | .up => clampCursor (if 0 < d.curLine then { d with curLine := d.curLine - 1 } else d)
  | .down =>
      clampCursor
        (if d.curLine + 1 < d.lines.length then { d with curLine := d.curLine + 1 } else d)
  | .left => clampCursor (moveLeft d)
  | .right => clampCursor (moveRight d)
  | .char c => if 32 ≤ c ∧ c < 127 then insertChar c (clampCursor d) else clampCursor d
  | .newline => newlineChar (clampCursor d)
  | .backspace => backspaceChar (clampCursor d)

/-! ## What is expected -/

/-- A text as its lines and the line ends between them. -/
structure EditText where
  texts : List CString
  ends : List CString

/-- The bytes: a line, its end, and so on. -/
def weave : List CString → List CString → CString
  | [], _ => []
  | t :: ts, [] => t ++ weave ts []
  | t :: ts, b :: bs => t ++ b ++ weave ts bs

/-- The bytes of the text. -/
def EditText.bytes (t : EditText) : CString := weave t.texts t.ends

/-- The lines of a file and their ends; every line but the last takes a byte at least. -/
def splitText : Nat → CString → EditText
  | 0, buf => ⟨[buf], []⟩
  | fuel + 1, buf =>
      let l := foundLine buf
      if l.ending = [] then ⟨[l.raw], []⟩
      else
        let t := splitText fuel l.rest
        ⟨l.raw :: t.texts, l.ending :: t.ends⟩

/-- The text of a file. -/
def textOf (file : CString) : EditText := splitText file.length file

/-- An edit of the text at the cursor of the document. -/
def EditText.edit (d : Doc) (t : EditText) : EditEvent → EditText
  | .char c => { t with texts := atLine (withChar d.curCol c) d.curLine t.texts }
  | .newline =>
      ⟨atLine (broken d.curCol) d.curLine t.texts,
        t.ends.take d.curLine ++ [10] :: t.ends.drop d.curLine⟩
  | .backspace =>
      if 0 < d.curCol then { t with texts := atLine (withoutChar d.curCol) d.curLine t.texts }
      else ⟨joinAt (d.curLine - 1) t.texts, t.ends.eraseIdx (d.curLine - 1)⟩
  | _ => t

/-- The document and the text that it stands for. -/
structure Editing where
  doc : Doc
  text : EditText

/-- One event; an edit that leaves the document as it is has been refused. -/
def editingStep (s : Editing) (e : EditEvent) : Editing :=
  ⟨docStep s.doc e,
    if (docStep s.doc e).lines = s.doc.lines then s.text else s.text.edit (clampCursor s.doc) e⟩

/-- If the file is loaded and the document saved after the events, what is stored is the text
after the edits. -/
def EditorExact (file : CString) (events : List EditEvent) : Prop :=
  ∀ d, loadFile file = some d →
    savedText (run editingStep ⟨d, textOf file⟩ events).doc =
      (run editingStep ⟨d, textOf file⟩ events).text.bytes

/-- The table holds the text: as many lines as it has at most, none too long or with a NUL, and
the last one not empty unless it is the only one. -/
structure EditText.Held (t : EditText) : Prop where
  few : t.texts.length ≤ editMaxLines
  short : ∀ l ∈ t.texts, l.length < editLineLen ∧ 0 ∉ l
  last : t.texts.length = 1 ∨ t.texts.getLast? ≠ some []

/-- A file that is not too long to be loaded is held by the table, and after the events every
line end that is left is a line feed. -/
def EditorFits (file : CString) (events : List EditEvent) : Prop :=
  ∀ d, loadFile file = some d → (textOf file).Held ∧
    ∀ b ∈ (run editingStep ⟨d, textOf file⟩ events).text.ends, b = [10]

/-! ## The lines of a file -/

/-- A line end that `load_file` knows. -/
def IsEnd (b : CString) : Prop := b = [10] ∨ b = [13] ∨ b = [13, 10]

/-- What is behind the bytes of a line is empty or starts with an end. -/
theorem foundLine_tail (buf : CString) :
    buf = (foundLine buf).raw ++ buf.drop (foundLine buf).raw.length ∧
      ∀ c ∈ (buf.drop (foundLine buf).raw.length).head?, c = 10 ∨ c = 13 := by
  let plain : UInt8 → Bool := fun c => c ≠ 10 && c ≠ 13
  have raw : (foundLine buf).raw = buf.takeWhile plain := rfl
  have all : buf.takeWhile plain ++ buf.dropWhile plain = buf :=
    List.takeWhile_append_dropWhile
  have tail : buf.drop (foundLine buf).raw.length = buf.dropWhile plain := by
    have dropped := congrArg (List.drop (foundLine buf).raw.length) all
    rw [raw, List.drop_left] at dropped
    rw [raw]
    exact dropped.symm
  rw [tail, raw]
  refine ⟨all.symm, ?_⟩
  intro c mem
  have not_plain := List.head?_dropWhile_not plain buf
  rw [Option.mem_def.1 mem] at not_plain
  by_contra other
  rw [not_or] at other
  simp [plain, other] at not_plain

theorem foundLine_spec (buf : CString) :
    buf = (foundLine buf).raw ++ (foundLine buf).ending ++ (foundLine buf).rest ∧
      ((foundLine buf).ending = [] ∧ (foundLine buf).rest = [] ∨ IsEnd (foundLine buf).ending) := by
  obtain ⟨parts, stop⟩ := foundLine_tail buf
  generalize rest_eq : buf.drop (foundLine buf).raw.length = rest at parts stop
  have ending : (foundLine buf).ending = (if rest.head? = some 13 then [13] else []) ++
      if (rest.drop (if rest.head? = some 13 then [13] else ([] : CString)).length).head? = some 10
        then [10] else [] := by
    rw [← rest_eq]
    rfl
  have behind : (foundLine buf).rest = rest.drop (foundLine buf).ending.length := by
    rw [← rest_eq]
    rfl
  have split : rest = (foundLine buf).ending ++ (foundLine buf).rest ∧
      ((foundLine buf).ending = [] ∧ (foundLine buf).rest = [] ∨
        IsEnd (foundLine buf).ending) := by
    rw [behind, ending]
    match rest with
    | [] => simp
    | c :: cs =>
        have one : c = 10 ∨ c = 13 := stop c (by simp)
        rcases one with rfl | rfl
        · simp [IsEnd]
        · match cs with
          | [] => simp [IsEnd]
          | b :: bs =>
              by_cases feed : b = 10
              · simp [feed, IsEnd]
              · simp [feed, IsEnd]
  refine ⟨?_, split.2⟩
  rw [List.append_assoc, ← split.1]
  exact parts

/-- The rest is shorter when there is an end. -/
theorem foundLine_rest_lt {buf : CString} (ended : (foundLine buf).ending ≠ []) :
    (foundLine buf).rest.length < buf.length := by
  have sizes := congrArg List.length (foundLine_spec buf).1
  have one := List.length_pos_iff.2 ended
  simp only [List.length_append] at sizes
  omega

/-- Without an end the line is all that is left. -/
theorem foundLine_whole {buf : CString} (whole : (foundLine buf).ending = []) :
    (foundLine buf).raw = buf ∧ (foundLine buf).rest = [] := by
  obtain ⟨parts, ⟨-, last⟩ | one⟩ := foundLine_spec buf
  · rw [whole, last, List.append_nil, List.append_nil] at parts
    exact ⟨parts.symm, last⟩
  · rw [whole] at one
    simp [IsEnd] at one

theorem isEnd_of_ending {buf : CString} (ended : (foundLine buf).ending ≠ []) :
    IsEnd (foundLine buf).ending :=
  (foundLine_spec buf).2.resolve_left fun none => ended none.1

/-! ## The text of a file -/

/-- The text is well formed: there is a line end between two lines. -/
structure EditText.Formed (t : EditText) : Prop where
  between : t.ends.length + 1 = t.texts.length
  known : ∀ b ∈ t.ends, IsEnd b

theorem splitText_spec :
    ∀ {fuel : Nat} {buf : CString}, buf.length ≤ fuel →
      (splitText fuel buf).bytes = buf ∧ (splitText fuel buf).Formed
  | 0, buf, enough => ⟨by simp [splitText, EditText.bytes, weave], ⟨rfl, by simp [splitText]⟩⟩
  | fuel + 1, buf, enough => by
      by_cases whole : (foundLine buf).ending = []
      · have split : splitText (fuel + 1) buf = ⟨[buf], []⟩ := by
          rw [splitText, if_pos whole, (foundLine_whole whole).1]
        rw [split]
        exact ⟨by simp [EditText.bytes, weave], ⟨rfl, by simp⟩⟩
      · have split : splitText (fuel + 1) buf =
            ⟨(foundLine buf).raw :: (splitText fuel (foundLine buf).rest).texts,
              (foundLine buf).ending :: (splitText fuel (foundLine buf).rest).ends⟩ := by
          rw [splitText, if_neg whole]
        have shorter := foundLine_rest_lt whole
        obtain ⟨bytes, between, known⟩ :=
          splitText_spec (show (foundLine buf).rest.length ≤ fuel by omega)
        rw [split]
        refine ⟨?_, ⟨?_, ?_⟩⟩
        · rw [EditText.bytes] at bytes ⊢
          rw [weave, bytes]
          exact (foundLine_spec buf).1.symm
        · simp only [List.length_cons]
          omega
        · simp only [List.mem_cons, forall_eq_or_imp]
          exact ⟨isEnd_of_ending whole, known⟩

/-- The text of a file has its bytes. -/
theorem textOf_bytes (file : CString) : (textOf file).bytes = file :=
  (splitText_spec (le_refl _)).1

/-! ## What loading loses -/

/-- The bytes of the lines, and one for each of them. -/
def weight (lines : List CString) : Nat := (lines.map fun l => l.length + 1).sum

@[simp] theorem weight_nil : weight [] = 0 := rfl

@[simp] theorem weight_cons (a : CString) (as : List CString) :
    weight (a :: as) = a.length + 1 + weight as := by
  simp [weight]

/-- The lines of a table are no longer than those of a text, which may have more. -/
def Under : List CString → List CString → Prop
  | [], _ => True
  | _ :: _, [] => False
  | a :: as, b :: bs => a.length ≤ b.length ∧ Under as bs

theorem Under.weight_le : ∀ {as bs : List CString}, Under as bs → weight as ≤ weight bs
  | [], _, _ => by simp
  | a :: as, b :: bs, ⟨le, tail⟩ => by
      have rec_le := tail.weight_le
      simp only [weight_cons]
      omega

theorem Under.length_le : ∀ {as bs : List CString}, Under as bs → as.length ≤ bs.length
  | [], _, _ => by simp
  | a :: as, b :: bs, ⟨_, tail⟩ => by
      have rec_le := tail.length_le
      simp only [List.length_cons]
      omega

theorem Under.getD_le : ∀ {as bs : List CString} {l : Nat}, Under as bs → l < as.length →
    (as.getD l []).length ≤ (bs.getD l []).length
  | a :: as, b :: bs, 0, ⟨le, _⟩, _ => by simpa using le
  | a :: as, b :: bs, l + 1, ⟨_, tail⟩, lt => by
      have rec_le := tail.getD_le (show l < as.length by simpa using lt)
      simpa using rec_le

theorem tableLine_length_le (raw : CString) :
    (tableLine raw).length ≤ raw.length ∧ (tableLine raw).length < editLineLen := by
  have taken := (List.takeWhile_sublist (· ≠ 0) (l := raw.take (editLineLen - 1))).length_le
  rw [List.length_take] at taken
  rw [tableLine, editLineLen] at *
  omega

/-- A line is held whole if it is short enough and without a NUL. -/
theorem tableLine_eq {raw : CString} (short : raw.length < editLineLen) (clean : 0 ∉ raw) :
    tableLine raw = raw := by
  rw [editLineLen] at short
  rw [tableLine, List.take_of_length_le (by rw [editLineLen]; omega), List.takeWhile_eq_self_iff]
  intro c mem
  have other : c ≠ 0 := fun zero => clean (zero ▸ mem)
  simpa using other

theorem of_tableLine_length {raw : CString} (same : (tableLine raw).length = raw.length) :
    raw.length < editLineLen ∧ 0 ∉ raw := by
  have short : raw.length < editLineLen := same ▸ (tableLine_length_le raw).2
  refine ⟨short, fun mem => ?_⟩
  have fits : raw.length ≤ editLineLen - 1 := Nat.le_sub_one_of_lt short
  have whole : raw.takeWhile (· ≠ 0) = raw := by
    rw [tableLine, List.take_of_length_le fits] at same
    exact (List.takeWhile_prefix _).eq_of_length same
  have clean := List.takeWhile_eq_self_iff.1 whole 0 mem
  simp at clean

/-- What is loaded is no longer than the text. -/
theorem loadLines_under : ∀ {n fuel : Nat} {buf : CString}, buf.length ≤ fuel →
    Under (loadLines n buf) (splitText fuel buf).texts ∧ (loadLines n buf).length ≤ n
  | 0, fuel, buf, enough => ⟨trivial, le_refl _⟩
  | n + 1, fuel, [], enough => ⟨trivial, Nat.zero_le _⟩
  | n + 1, fuel + 1, c :: cs, enough => by
      have below := (tableLine_length_le (foundLine (c :: cs)).raw).1
      rw [loadLines, if_neg (List.cons_ne_nil c cs), splitText]
      by_cases whole : (foundLine (c :: cs)).ending = []
      · have none : loadLines n [] = [] := by
          cases n with
          | zero => rfl
          | succ n => rfl
        simp only [whole, (foundLine_whole whole).2, none, if_true, List.length_singleton]
        exact ⟨⟨below, trivial⟩, by omega⟩
      · have shorter := foundLine_rest_lt whole
        obtain ⟨under, few⟩ := loadLines_under (n := n)
          (show (foundLine (c :: cs)).rest.length ≤ fuel by omega)
        simp only [whole, if_false, List.length_cons]
        exact ⟨⟨below, under⟩, by omega⟩

/-- The lines of a file, one level down. -/
theorem splitText_texts (fuel : Nat) (buf : CString) :
    ∃ t ts, (splitText fuel buf).texts = t :: ts := by
  cases fuel with
  | zero => exact ⟨buf, [], rfl⟩
  | succ fuel =>
      by_cases whole : (foundLine buf).ending = []
      · exact ⟨(foundLine buf).raw, [], by rw [splitText, if_pos whole]⟩
      · exact ⟨(foundLine buf).raw, (splitText fuel (foundLine buf).rest).texts, by
          rw [splitText, if_neg whole]⟩

/-- The lines are loaded as they are if the table holds them and the last one is not empty. -/
theorem loadLines_eq : ∀ {n fuel : Nat} {buf : CString}, buf.length ≤ fuel →
    (splitText fuel buf).texts.length ≤ n →
    (∀ l ∈ (splitText fuel buf).texts, l.length < editLineLen ∧ 0 ∉ l) →
    (splitText fuel buf).texts.getLast? ≠ some [] →
    loadLines n buf = (splitText fuel buf).texts
  | 0, fuel, buf, enough, few, short, last => by
      obtain ⟨t, ts, texts⟩ := splitText_texts fuel buf
      rw [texts] at few
      simp at few
  | n + 1, fuel, [], enough, few, short, last => by
      have one : (splitText fuel []).texts = [[]] := by
        cases fuel with
        | zero => rfl
        | succ fuel => rfl
      simp [one] at last
  | n + 1, fuel + 1, c :: cs, enough, few, short, last => by
      rw [splitText] at few short last ⊢
      rw [loadLines, if_neg (List.cons_ne_nil c cs)]
      by_cases whole : (foundLine (c :: cs)).ending = []
      · have none : loadLines n [] = [] := by
          cases n with
          | zero => rfl
          | succ n => rfl
        rw [if_pos whole] at short ⊢
        have held := short (foundLine (c :: cs)).raw (by simp)
        simp only [(foundLine_whole whole).2, none, tableLine_eq held.1 held.2]
      · have shorter := foundLine_rest_lt whole
        obtain ⟨t, ts, texts⟩ := splitText_texts fuel (foundLine (c :: cs)).rest
        simp only [if_neg whole, List.mem_cons, forall_eq_or_imp, List.length_cons]
          at few short last ⊢
        have rec_eq := loadLines_eq (n := n)
          (show (foundLine (c :: cs)).rest.length ≤ fuel by omega) (by omega) short.2
          (by
            rw [texts] at last ⊢
            simpa using last)
        rw [rec_eq, tableLine_eq short.1.1 short.1.2]

/-- If loading loses nothing the table holds the lines. -/
theorem held_of_weight : ∀ {n fuel : Nat} {buf : CString}, buf.length ≤ fuel →
    weight (loadLines n buf) = weight (splitText fuel buf).texts →
    (∀ l ∈ (splitText fuel buf).texts, l.length < editLineLen ∧ 0 ∉ l) ∧
      (splitText fuel buf).texts.getLast? ≠ some [] ∧
      (splitText fuel buf).texts.length = (loadLines n buf).length
  | 0, fuel, buf, enough, same => by
      obtain ⟨t, ts, texts⟩ := splitText_texts fuel buf
      rw [texts, loadLines, weight_cons, weight_nil] at same
      omega
  | n + 1, fuel, [], enough, same => by
      obtain ⟨t, ts, texts⟩ := splitText_texts fuel []
      rw [texts, loadLines, if_pos rfl, weight_cons, weight_nil] at same
      omega
  | n + 1, fuel + 1, c :: cs, enough, same => by
      rw [splitText, loadLines, if_neg (List.cons_ne_nil c cs)] at *
      have below := (tableLine_length_le (foundLine (c :: cs)).raw).1
      by_cases whole : (foundLine (c :: cs)).ending = []
      · have none : loadLines n [] = [] := by
          cases n with
          | zero => rfl
          | succ n => rfl
        simp only [whole, (foundLine_whole whole).2, none, if_true, weight_cons, weight_nil,
          List.mem_singleton, forall_eq, List.length_singleton] at same ⊢
        refine ⟨of_tableLine_length (by omega), ?_, trivial⟩
        simp [(foundLine_whole whole).1]
      · have shorter := foundLine_rest_lt whole
        have left : (foundLine (c :: cs)).rest.length ≤ fuel := by omega
        have tail_le := (loadLines_under (n := n) left).1.weight_le
        simp only [if_neg whole, weight_cons, List.mem_cons, forall_eq_or_imp,
          List.length_cons] at same ⊢
        obtain ⟨short, last, count⟩ := held_of_weight (n := n) left (by omega)
        obtain ⟨t, ts, texts⟩ := splitText_texts fuel (foundLine (c :: cs)).rest
        refine ⟨⟨of_tableLine_length (by omega), short⟩, ?_, by omega⟩
        rw [texts] at last ⊢
        simpa using last

/-- The lines that `load_file` makes of a file. -/
def loadedLines (file : CString) : List CString :=
  if loadLines editMaxLines file = [] then [[]] else loadLines editMaxLines file

theorem loadLines_short : ∀ {n : Nat} {buf : CString}, ∀ l ∈ loadLines n buf, l.length < editLineLen
  | 0, buf, l, mem => by simp [loadLines] at mem
  | n + 1, buf, l, mem => by
      rw [loadLines] at mem
      split at mem
      · simp at mem
      · rcases List.mem_cons.1 mem with rfl | mem
        · exact (tableLine_length_le _).2
        · exact loadLines_short l mem

theorem loadLines_eq_nil {n : Nat} {buf : CString} (none : loadLines (n + 1) buf = []) :
    buf = [] := by
  by_contra other
  rw [loadLines, if_neg other] at none
  simp at none

/-- A text of one line without an end is not empty if the file is not. -/
theorem getLast_of_single {file : CString} (some_byte : file ≠ [])
    (one : (textOf file).texts.length = 1) : (textOf file).texts.getLast? ≠ some [] := by
  obtain ⟨bytes, between, -⟩ := splitText_spec (le_refl file.length)
  change (textOf file).bytes = file at bytes
  change (textOf file).ends.length + 1 = (textOf file).texts.length at between
  have no_ends : (textOf file).ends = [] := List.length_eq_zero_iff.1 (by omega)
  obtain ⟨t, texts⟩ := List.length_eq_one_iff.1 one
  rw [EditText.bytes, texts, no_ends, weave, weave, List.append_nil] at bytes
  rw [texts, bytes]
  simpa using some_byte

/-- The table starts as the lines of the text exactly if it holds them, and else it lost some. -/
theorem loadedLines_spec (file : CString) :
    Under (loadedLines file) (textOf file).texts ∧
      0 < (loadedLines file).length ∧ (loadedLines file).length ≤ editMaxLines ∧
      (∀ l ∈ loadedLines file, l.length < editLineLen) ∧
      ((textOf file).Held → loadedLines file = (textOf file).texts) ∧
      (weight (loadedLines file) = weight (textOf file).texts → (textOf file).Held) := by
  obtain ⟨under, few⟩ := loadLines_under (n := editMaxLines) (le_refl file.length)
  change Under _ (textOf file).texts at under
  by_cases none : loadLines editMaxLines file = []
  · obtain rfl := loadLines_eq_nil none
    have table : loadedLines [] = [[]] := rfl
    have text : textOf [] = ⟨[[]], []⟩ := rfl
    rw [table, text]
    refine ⟨⟨le_refl _, trivial⟩, by decide, by decide, by simp [editLineLen], fun _ => rfl,
      fun _ => ⟨by decide, by simp [editLineLen], .inl rfl⟩⟩
  · have table : loadedLines file = loadLines editMaxLines file := if_neg none
    have some_byte : file ≠ [] := by
      rintro rfl
      exact none rfl
    rw [table]
    refine ⟨under, List.length_pos_iff.2 none, few, loadLines_short, fun held => ?_, fun same => ?_⟩
    · refine loadLines_eq (le_refl file.length) held.few held.short ?_
      exact held.last.elim (getLast_of_single some_byte) id
    · obtain ⟨short, last, count⟩ := held_of_weight (le_refl file.length) same
      exact ⟨count ▸ few, short, .inr last⟩

/-! ## What an edit does -/

@[simp] theorem length_atLine (f : CString → List CString) :
    ∀ {l : Nat} {as : List CString}, l < as.length →
      (atLine f l as).length + 1 = as.length + (f (as.getD l [])).length
  | 0, a :: as, lt => by
      simp only [atLine, List.length_append, List.length_cons, List.getD_cons_zero]
      omega
  | l + 1, a :: as, lt => by
      have rec_length := length_atLine f (show l < as.length by simpa using lt)
      simp only [atLine, List.length_cons, List.getD_cons_succ]
      omega

theorem weight_append (as bs : List CString) : weight (as ++ bs) = weight as + weight bs := by
  simp [weight]

theorem weight_atLine (f : CString → List CString) :
    ∀ {l : Nat} {as : List CString}, l < as.length →
      weight (atLine f l as) + (as.getD l []).length + 1 = weight as + weight (f (as.getD l []))
  | 0, a :: as, lt => by
      simp only [atLine, weight_append, weight_cons, List.getD_cons_zero]
      omega
  | l + 1, a :: as, lt => by
      have rec_weight := weight_atLine f (show l < as.length by simpa using lt)
      simp only [atLine, weight_cons, List.getD_cons_succ]
      omega

theorem mem_atLine {f : CString → List CString} {b : CString} :
    ∀ {l : Nat} {as : List CString}, b ∈ atLine f l as → b ∈ f (as.getD l []) ∨ b ∈ as
  | _, [], mem => by simp [atLine] at mem
  | 0, a :: as, mem => by
      rw [atLine, List.mem_append] at mem
      exact mem.imp id (List.mem_cons_of_mem a)
  | l + 1, a :: as, mem => by
      rw [atLine, List.mem_cons] at mem
      rcases mem with rfl | mem
      · exact .inr List.mem_cons_self
      · exact (mem_atLine mem).imp id (List.mem_cons_of_mem a)

theorem Under.lineEdit {f : CString → List CString} :
    ∀ {l : Nat} {as bs : List CString}, Under as bs → l < as.length →
      (∀ a b : CString, a.length ≤ b.length → ∀ {as bs}, Under as bs →
        Under (f a ++ as) (f b ++ bs)) →
      Under (atLine f l as) (atLine f l bs)
  | 0, a :: as, b :: bs, ⟨le, tail⟩, _, keep => keep a b le tail
  | l + 1, a :: as, b :: bs, ⟨le, tail⟩, lt, keep =>
      ⟨le, tail.lineEdit (by simpa using lt) keep⟩

theorem length_joinAt : ∀ {l : Nat} {as : List CString}, l + 1 < as.length →
    (joinAt l as).length + 1 = as.length
  | 0, a :: b :: as, _ => rfl
  | l + 1, a :: as, lt => by
      have rec_length := length_joinAt (show l + 1 < as.length by simpa using lt)
      simp only [joinAt, List.length_cons]
      omega

theorem weight_joinAt : ∀ {l : Nat} {as : List CString}, l + 1 < as.length →
    weight (joinAt l as) + 1 = weight as
  | 0, a :: b :: as, _ => by
      simp only [joinAt, weight_cons, List.length_append]
      omega
  | l + 1, a :: as, lt => by
      have rec_weight := weight_joinAt (show l + 1 < as.length by simpa using lt)
      simp only [joinAt, weight_cons]
      omega

theorem mem_joinAt {b : CString} : ∀ {l : Nat} {as : List CString}, l + 1 < as.length →
    b ∈ joinAt l as → b = as.getD l [] ++ as.getD (l + 1) [] ∨ b ∈ as
  | 0, a :: c :: as, _, mem => by
      rw [joinAt, List.mem_cons] at mem
      exact mem.imp id fun mem => List.mem_cons_of_mem a (List.mem_cons_of_mem c mem)
  | l + 1, a :: as, lt, mem => by
      rw [joinAt, List.mem_cons] at mem
      rcases mem with rfl | mem
      · exact .inr List.mem_cons_self
      · exact (mem_joinAt (by simpa using lt) mem).imp id (List.mem_cons_of_mem a)

theorem Under.joined : ∀ {l : Nat} {as bs : List CString}, Under as bs → l + 1 < as.length →
    Under (joinAt l as) (joinAt l bs)
  | 0, a :: b :: as, c :: d :: bs, ⟨le, le', tail⟩, _ => by
      refine ⟨?_, tail⟩
      simp only [List.length_append]
      omega
  | l + 1, a :: as, b :: bs, ⟨le, tail⟩, lt => ⟨le, tail.joined (by simpa using lt)⟩

/-- What a turn can do to the lines and the text. -/
inductive Edited (s : Editing) : List CString → EditText → Prop
  | kept : Edited s s.doc.lines s.text
  | char {l col : Nat} (c : UInt8) : l < s.doc.lines.length →
      (s.doc.lines.getD l []).length + 1 < editLineLen →
      Edited s (atLine (withChar col c) l s.doc.lines)
        { s.text with texts := atLine (withChar col c) l s.text.texts }
  | newline {l col : Nat} : l < s.doc.lines.length → s.doc.lines.length < editMaxLines →
      Edited s (atLine (broken col) l s.doc.lines)
        ⟨atLine (broken col) l s.text.texts, s.text.ends.take l ++ [10] :: s.text.ends.drop l⟩
  | erase {l col : Nat} : l < s.doc.lines.length → 0 < col →
      col ≤ (s.doc.lines.getD l []).length →
      Edited s (atLine (withoutChar col) l s.doc.lines)
        { s.text with texts := atLine (withoutChar col) l s.text.texts }
  | join {l : Nat} : l + 1 < s.doc.lines.length →
      (s.doc.lines.getD l []).length + (s.doc.lines.getD (l + 1) []).length < editLineLen →
      Edited s (joinAt l s.doc.lines) ⟨joinAt l s.text.texts, s.text.ends.eraseIdx l⟩

theorem clampCursor_spec (d : Doc) (some_line : 0 < d.lines.length) :
    (clampCursor d).lines = d.lines ∧ (clampCursor d).curLine < d.lines.length ∧
      (clampCursor d).curCol ≤ (d.lines.getD (clampCursor d).curLine []).length := by
  refine ⟨rfl, ?_, ?_⟩
  · simp only [clampCursor]
    omega
  · simp only [clampCursor]
    exact Nat.min_le_right _ _

theorem moved_lines (d : Doc) {e : EditEvent}
    (moves : e = .up ∨ e = .down ∨ e = .left ∨ e = .right) :
    (docStep d e).lines = d.lines := by
  rcases moves with rfl | rfl | rfl | rfl
  · simp only [docStep, clampCursor]
    split <;> rfl
  · simp only [docStep, clampCursor]
    split <;> rfl
  · simp only [docStep, clampCursor, moveLeft]
    split
    · rfl
    · split <;> rfl
  · simp only [docStep, clampCursor, moveRight]
    split
    · rfl
    · split <;> rfl

theorem edit_char (d : Doc) (t : EditText) (c : UInt8) :
    t.edit d (.char c) = { t with texts := atLine (withChar d.curCol c) d.curLine t.texts } := rfl

theorem edit_newline (d : Doc) (t : EditText) :
    t.edit d .newline =
      ⟨atLine (broken d.curCol) d.curLine t.texts,
        t.ends.take d.curLine ++ [10] :: t.ends.drop d.curLine⟩ := rfl

theorem edit_backspace (d : Doc) (t : EditText) :
    t.edit d .backspace =
      if 0 < d.curCol then { t with texts := atLine (withoutChar d.curCol) d.curLine t.texts }
      else ⟨joinAt (d.curLine - 1) t.texts, t.ends.eraseIdx (d.curLine - 1)⟩ := rfl

/-- A turn does one of the edits, to the lines and to the text. -/
theorem edited_step (s : Editing) (e : EditEvent) (some_line : 0 < s.doc.lines.length) :
    Edited s (editingStep s e).doc.lines (editingStep s e).text := by
  simp only [editingStep]
  -- what leaves the lines as they are has been refused or has moved the cursor
  by_cases same : (docStep s.doc e).lines = s.doc.lines
  · rw [if_pos same, same]
    exact .kept
  rw [if_neg same]
  obtain ⟨lines, line, col⟩ := clampCursor_spec s.doc some_line
  generalize clampCursor_eq : clampCursor s.doc = d at lines line col
  have at_line : d.line = s.doc.lines.getD d.curLine [] := by rw [Doc.line, lines]
  cases e with
  | up => exact absurd (moved_lines s.doc (.inl rfl)) same
  | down => exact absurd (moved_lines s.doc (.inr (.inl rfl))) same
  | left => exact absurd (moved_lines s.doc (.inr (.inr (.inl rfl)))) same
  | right => exact absurd (moved_lines s.doc (.inr (.inr (.inr rfl)))) same
  | char c =>
      simp only [docStep, clampCursor_eq, insertChar] at same ⊢
      by_cases printable : 32 ≤ c ∧ c < 127
      swap
      · rw [if_neg printable] at same
        exact absurd lines same
      rw [if_pos printable] at same ⊢
      by_cases full : editLineLen ≤ d.line.length + 1
      · rw [if_pos full] at same
        exact absurd lines same
      · simp only [if_neg full]
        simp only [edit_char, lines, at_line, Nat.min_eq_left col]
        exact .char c line (by rw [← at_line]; omega)
  | newline =>
      simp only [docStep, clampCursor_eq, newlineChar] at same ⊢
      by_cases full : editMaxLines ≤ d.lines.length
      · rw [if_pos full] at same
        exact absurd lines same
      · simp only [if_neg full]
        simp only [edit_newline, lines, at_line, Nat.min_eq_left col]
        exact .newline line (by rw [← lines]; omega)
  | backspace =>
      simp only [docStep, clampCursor_eq, backspaceChar, edit_backspace] at same ⊢
      by_cases behind : 0 < d.curCol
      · simp only [if_pos behind, lines]
        exact .erase line behind col
      · simp only [if_neg behind] at same ⊢
        by_cases first : d.curLine = 0
        · rw [if_pos first] at same
          exact absurd lines same
        · rw [if_neg first] at same ⊢
          by_cases full : editLineLen ≤ (d.lines.getD (d.curLine - 1) []).length + d.line.length
          · rw [if_pos full] at same
            exact absurd lines same
          · simp only [if_neg full]
            simp only [lines]
            have next : d.curLine - 1 + 1 = d.curLine := by omega
            refine .join (by omega) ?_
            rw [next, ← at_line, ← lines]
            omega

/-! ## What an edit keeps -/

/-- What is true of the lines and the text in every state. -/
structure Follows (lines : List CString) (text : EditText) : Prop where
  some_line : 0 < lines.length
  few : lines.length ≤ editMaxLines
  short : ∀ l ∈ lines, l.length < editLineLen
  under : Under lines text.texts
  formed : text.Formed

theorem Follows.line_short {lines : List CString} {text : EditText} (inv : Follows lines text)
    {l : Nat} (line : l < lines.length) : (lines.getD l []).length < editLineLen := by
  rw [List.getD_eq_getElem?_getD, List.getElem?_eq_getElem line, Option.getD_some]
  exact inv.short _ (List.getElem_mem line)

theorem withChar_keeps (col : Nat) (c : UInt8) (a b : CString) (le : a.length ≤ b.length)
    {as bs : List CString} (tail : Under as bs) :
    Under (withChar col c a ++ as) (withChar col c b ++ bs) := by
  refine ⟨?_, tail⟩
  simp only [List.length_append, List.length_take, List.length_cons, List.length_drop]
  omega

theorem broken_keeps (col : Nat) (a b : CString) (le : a.length ≤ b.length)
    {as bs : List CString} (tail : Under as bs) :
    Under (broken col a ++ as) (broken col b ++ bs) := by
  refine ⟨?_, ?_, tail⟩
  · simp only [List.length_take]
    omega
  · simp only [List.length_drop]
    omega

theorem withoutChar_keeps {col : Nat} (behind : 0 < col) (a b : CString) (le : a.length ≤ b.length)
    {as bs : List CString} (tail : Under as bs) :
    Under (withoutChar col a ++ as) (withoutChar col b ++ bs) := by
  refine ⟨?_, tail⟩
  simp only [List.length_append, List.length_take, List.length_drop]
  omega

theorem weight_withChar (col : Nat) (c : UInt8) (a : CString) :
    weight (withChar col c a) = a.length + 2 := by
  simp only [withChar, weight_cons, weight_nil, List.length_append, List.length_take,
    List.length_cons, List.length_drop]
  omega

theorem weight_broken (col : Nat) (a : CString) : weight (broken col a) = a.length + 2 := by
  simp only [broken, weight_cons, weight_nil, List.length_take, List.length_drop]
  omega

theorem weight_withoutChar {col : Nat} {a : CString} (behind : 0 < col) (le : col ≤ a.length) :
    weight (withoutChar col a) = a.length := by
  simp only [withoutChar, weight_cons, weight_nil, List.length_append, List.length_take,
    List.length_drop]
  omega

/-- An edit of one line that leaves one line. -/
theorem Follows.lineEdit {lines : List CString} {text : EditText} {f : CString → List CString}
    {g : CString → CString} {l : Nat} (inv : Follows lines text) (line : l < lines.length)
    (one : ∀ a, f a = [g a]) (fits : (g (lines.getD l [])).length < editLineLen)
    (keep : ∀ a b : CString, a.length ≤ b.length → ∀ {as bs}, Under as bs →
      Under (f a ++ as) (f b ++ bs)) :
    Follows (atLine f l lines) { text with texts := atLine f l text.texts } := by
  obtain ⟨some_line, few, short, under, between, known⟩ := inv
  have wider := under.length_le
  have count := length_atLine f line
  have count' := length_atLine f (show l < text.texts.length by omega)
  rw [one, List.length_singleton] at count count'
  refine ⟨by omega, by omega, fun b mem => ?_, under.lineEdit line keep, ?_, known⟩
  · rcases mem_atLine mem with new | old
    · rw [one, List.mem_singleton] at new
      exact new ▸ fits
    · exact short b old
  · show text.ends.length + 1 = (atLine f l text.texts).length
    omega

theorem Edited.follows {s : Editing} {lines : List CString} {text : EditText}
    (edit : Edited s lines text) (inv : Follows s.doc.lines s.text) : Follows lines text := by
  -- an edit of one line keeps the counts; the others move them by one on both sides
  cases edit with
  | kept => exact inv
  | @char l col c line fits =>
      refine inv.lineEdit line (fun a => rfl) ?_ (withChar_keeps col c)
      simp only [List.length_append, List.length_take, List.length_cons, List.length_drop]
      omega
  | @erase l col line behind le =>
      refine inv.lineEdit line (fun a => rfl) ?_ (withoutChar_keeps behind)
      have old := inv.line_short line
      simp only [List.length_append, List.length_take, List.length_drop]
      omega
  | @newline l col line room =>
      have whole := inv.line_short line
      obtain ⟨some_line, few, short, under, between, known⟩ := inv
      have wider := under.length_le
      have two : ∀ a : CString, (broken col a).length = 2 := fun a => rfl
      have count := length_atLine (broken col) line
      have count' := length_atLine (broken col) (show l < s.text.texts.length by omega)
      rw [two] at count count'
      refine ⟨by omega, by omega, fun b mem => ?_,
        under.lineEdit line (broken_keeps col), ?_, ?_⟩
      · rcases mem_atLine mem with new | old
        · simp only [broken, List.mem_cons, List.not_mem_nil, or_false] at new
          rcases new with rfl | rfl
          · rw [List.length_take]
            omega
          · rw [List.length_drop]
            omega
        · exact short b old
      · show (s.text.ends.take l ++ [10] :: s.text.ends.drop l).length + 1 = _
        simp only [List.length_append, List.length_take, List.length_cons, List.length_drop]
        omega
      · intro b mem
        rcases List.mem_append.1 mem with old | new
        · exact known b (List.mem_of_mem_take old)
        · rcases List.mem_cons.1 new with rfl | old
          · exact .inl rfl
          · exact known b (List.mem_of_mem_drop old)
  | @join l next fits =>
      obtain ⟨some_line, few, short, under, between, known⟩ := inv
      have wider := under.length_le
      have count := length_joinAt next
      have count' := length_joinAt (show l + 1 < s.text.texts.length by omega)
      refine ⟨by omega, by omega, fun b mem => ?_, under.joined next, ?_, ?_⟩
      · rcases mem_joinAt next mem with rfl | old
        · rw [List.length_append]
          exact fits
        · exact short b old
      · show (s.text.ends.eraseIdx l).length + 1 = (joinAt l s.text.texts).length
        rw [List.length_eraseIdx_of_lt (by omega)]
        omega
      · exact fun b mem => known b (List.mem_of_mem_eraseIdx mem)

/-- The bytes and lines that the text has more than the table stay as many. -/
theorem Edited.weight_change {s : Editing} {lines : List CString} {text : EditText}
    (edit : Edited s lines text) (under : Under s.doc.lines s.text.texts) :
    weight text.texts + weight s.doc.lines = weight lines + weight s.text.texts := by
  have wider := under.length_le
  cases edit with
  | kept => exact Nat.add_comm _ _
  | @char l col c line fits =>
      have change := weight_atLine (withChar col c) line
      have change' := weight_atLine (withChar col c) (show l < s.text.texts.length by omega)
      rw [weight_withChar] at change change'
      show weight (atLine (withChar col c) l s.text.texts) + _ = _
      omega
  | @newline l col line room =>
      have change := weight_atLine (broken col) line
      have change' := weight_atLine (broken col) (show l < s.text.texts.length by omega)
      rw [weight_broken] at change change'
      show weight (atLine (broken col) l s.text.texts) + _ = _
      omega
  | @erase l col line behind le =>
      have change := weight_atLine (withoutChar col) line
      have change' := weight_atLine (withoutChar col) (show l < s.text.texts.length by omega)
      rw [weight_withoutChar behind le] at change
      rw [weight_withoutChar behind (le.trans (under.getD_le line))] at change'
      show weight (atLine (withoutChar col) l s.text.texts) + _ = _
      omega
  | @join l next fits =>
      have change := weight_joinAt next
      have change' := weight_joinAt (show l + 1 < s.text.texts.length by omega)
      show weight (joinAt l s.text.texts) + _ = _
      omega

/-- Equal lines stay equal. -/
theorem Edited.same {s : Editing} {lines : List CString} {text : EditText}
    (edit : Edited s lines text) (same : s.doc.lines = s.text.texts) : lines = text.texts := by
  cases edit with
  | kept => exact same
  | char c line fits => rw [same]
  | newline line room => rw [same]
  | erase line behind le => rw [same]
  | join next fits => rw [same]

/-! ## What is stored -/

/-- The line feeds between lines. -/
def feeds (lines : List CString) : List CString := List.replicate (lines.length - 1) [10]

theorem saveLines_eq : ∀ {lines : List CString} {used : Nat},
    used + weight lines + 1 < 160 * 1024 → saveLines used lines = weave lines (feeds lines)
  | [], _, _ => rfl
  | [a], used, fits => by
      rw [weight_cons] at fits
      rw [saveLines, if_neg (by omega), if_pos rfl]
      simp [feeds, weave]
  | a :: b :: as, used, fits => by
      rw [weight_cons] at fits
      have room : used + a.length + 1 + weight (b :: as) + 1 < 160 * 1024 := by omega
      have rec_eq := saveLines_eq room
      rw [weight_cons] at fits
      rw [saveLines, if_neg (by omega), if_neg (List.cons_ne_nil b as), rec_eq]
      simp [feeds, weave, List.replicate_succ]

theorem weight_le : ∀ {lines : List CString}, (∀ l ∈ lines, l.length < editLineLen) →
    weight lines ≤ lines.length * editLineLen
  | [], _ => by simp
  | a :: as, short => by
      rw [List.forall_mem_cons] at short
      have rec_le := weight_le short.2
      have first := short.1
      rw [weight_cons, List.length_cons, Nat.succ_mul]
      omega

/-- The whole table is stored. -/
theorem Follows.savedText {d : Doc} {text : EditText} (inv : Follows d.lines text) :
    savedText d = weave d.lines (feeds d.lines) := by
  have total := weight_le inv.short
  have few := inv.few
  refine saveLines_eq ?_
  rw [editLineLen] at total
  rw [editMaxLines] at few
  omega

theorem weave_length : ∀ {ts bs : List CString}, bs.length + 1 = ts.length → (∀ b ∈ bs, IsEnd b) →
    weight ts ≤ (weave ts bs).length + 1
  | [t], [], _, _ => by simp [weave]
  | t :: u :: ts, [], count, _ => by simp at count
  | t :: ts, b :: bs, count, known => by
      rw [List.forall_mem_cons] at known
      have fewer : bs.length + 1 = ts.length := by simpa using count
      have rec_le := weave_length fewer known.2
      have byte : 0 < b.length := by
        rcases known.1 with rfl | rfl | rfl
        · decide
        · decide
        · decide
      simp only [weave, weight_cons, List.length_append]
      omega

theorem weave_feeds_length : ∀ {lines : List CString}, 0 < lines.length →
    (weave lines (feeds lines)).length + 1 = weight lines
  | [a], _ => by simp [weave, feeds]
  | a :: b :: as, _ => by
      have rec_length := weave_feeds_length (show 0 < (b :: as).length by simp)
      simp only [feeds, List.length_cons, Nat.add_sub_cancel, List.replicate_succ, weave,
        weight_cons, List.length_append, List.length_nil] at rec_length ⊢
      omega

/-- With the same lines the bytes are the same only if the ends are. -/
theorem weave_eq_feeds : ∀ {ts bs : List CString}, bs.length + 1 = ts.length →
    (∀ b ∈ bs, IsEnd b) → (weave ts (feeds ts) = weave ts bs ↔ ∀ b ∈ bs, b = [10])
  | [t], [], _, _ => by simp [weave, feeds]
  | t :: u :: ts, [], count, _ => by simp at count
  | t :: u :: ts, b :: bs, count, known => by
      rw [List.forall_mem_cons] at known
      have fewer : bs.length + 1 = (u :: ts).length := by simpa using count
      have rec_iff := weave_eq_feeds fewer known.2
      have ends : feeds (t :: u :: ts) = [10] :: feeds (u :: ts) := by
        simp [feeds, List.replicate_succ]
      rw [ends, weave, weave, List.append_assoc, List.append_assoc, List.append_cancel_left_eq,
        List.forall_mem_cons, ← rec_iff]
      -- `\r` and `\r\n` differ from `\n` in their first byte
      rcases known.1 with rfl | rfl | rfl
      · simp
      · simp
      · simp

/-! ## The text is kept -/

/-- What is true after every turn, for a table that started as `lines` for the lines `texts`. -/
structure Lagging (lines texts : List CString) (s : Editing) : Prop where
  follows : Follows s.doc.lines s.text
  lag : weight s.text.texts + weight lines = weight s.doc.lines + weight texts
  same : lines = texts → s.doc.lines = s.text.texts

theorem Lagging.step {lines texts : List CString} (s : Editing) (e : EditEvent)
    (inv : Lagging lines texts s) : Lagging lines texts (editingStep s e) := by
  have edit := edited_step s e inv.follows.some_line
  have change := edit.weight_change inv.follows.under
  have lag := inv.lag
  exact ⟨edit.follows inv.follows, by omega, fun eq => edit.same (inv.same eq)⟩

/-- After any events, what is stored is the text exactly if the table held the file and every
line end that is left is a line feed. -/
theorem saved_iff {file : CString} {s : Editing}
    (inv : Lagging (loadedLines file) (textOf file).texts s) :
    savedText s.doc = s.text.bytes ↔ (textOf file).Held ∧ ∀ b ∈ s.text.ends, b = [10] := by
  obtain ⟨-, -, -, -, held_same, same_held⟩ := loadedLines_spec file
  obtain ⟨between, known⟩ := inv.follows.formed
  have ends_iff := weave_eq_feeds between known
  have rest : (textOf file).Held →
      (savedText s.doc = s.text.bytes ↔ ∀ b ∈ s.text.ends, b = [10]) := by
    intro held
    have same := inv.same (held_same held)
    rw [inv.follows.savedText, same, EditText.bytes]
    exact ends_iff
  refine ⟨fun stored => ?_, fun cond => (rest cond.1).2 cond.2⟩
  -- nothing that is missing in the table can be made up by shorter line ends
  have held : (textOf file).Held := by
    refine same_held ?_
    have lengths := congrArg List.length stored
    have stored_length := weave_feeds_length inv.follows.some_line
    have text_length := weave_length between known
    have started := (loadedLines_spec file).1.weight_le
    have lag := inv.lag
    rw [inv.follows.savedText, EditText.bytes] at lengths
    omega
  exact ⟨held, (rest held).1 stored⟩

theorem lagging_start (file : CString) :
    Lagging (loadedLines file) (textOf file).texts ⟨⟨loadedLines file, 0, 0⟩, textOf file⟩ := by
  obtain ⟨under, some_line, few, short, -, -⟩ := loadedLines_spec file
  exact ⟨⟨some_line, few, short, under, (splitText_spec (le_refl _)).2⟩, Nat.add_comm _ _, id⟩

/-- What is saved is the text exactly if the file is held whole by the table and every line end
left after the events is a line feed. -/
theorem editor_exact_iff (file : CString) (events : List EditEvent) :
    EditorExact file events ↔ EditorFits file events := by
  refine forall_congr' fun d => forall_congr' fun loaded => ?_
  have start : d = ⟨loadedLines file, 0, 0⟩ := by
    rw [loadFile] at loaded
    split at loaded
    · cases loaded
    · exact (Option.some.inj loaded).symm
  have inv : Lagging (loadedLines file) (textOf file).texts
      (run editingStep ⟨d, textOf file⟩ events) :=
    Reaches.invariant Lagging.step (start ▸ lagging_start file) ⟨events, rfl⟩
  exact saved_iff inv

/-- A line feed at the end of the file is lost without any edit. -/
theorem final_feed_lost :
    ¬ ∀ (file : CString) (events : List EditEvent), EditorExact file events := by
  intro exact_always
  have stored := exact_always [97, 10] [] ⟨[[97]], 0, 0⟩ rfl
  exact absurd stored (by decide)

end NTux.Desk
