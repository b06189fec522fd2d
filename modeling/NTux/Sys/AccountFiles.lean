import NTux.Sys.AccountTools
import Mathlib.Data.List.TakeWhile
import Mathlib.Algebra.GroupWithZero.Nat

/-!
# The account files, byte by byte

`exists_in` of `useradd.c`, `replace_shadow_line` of `passwd.c`, `remove_line` of `userdel.c`,
and the lines that `useradd` appends to `/etc/passwd`, `/etc/shadow` and `/etc/group`, with
their pointers, sizes and turns.

* `existsIn`, `replaceShadowLine`, `removeLine`, `useradd` — the code.
* `textLines` — the lines of a file.
* `ExistsExact`, `ReplaceExact`, `RemoveExact`, `UseraddExact` — what the tools are to do.
* `account_files_exact_iff` — exactly when they do it: no blank line stands before the user's,
  the lines that are copied fit with the new ones, and what is appended to ends with a newline.
-/

namespace NTux.Sys.Scan

open NTux.Lib.Fields

/-! ## The code -/

/-- What the scanners see of a buffer. -/
def bufText (content : CString) : CString := content.takeWhile (· ≠ 0)

/-- The line that a scanner stands at. -/
def lineAt (p : CString) : CString := p.takeWhile (· ≠ newline)

/-- What is behind that line: nothing, or a newline and the lines that follow. -/
def behindLine (p : CString) : CString := p.drop (lineAt p).length

/-- The next line. -/
def nextLine (p : CString) : CString := (behindLine p).drop 1

/-- `exists_in` with the turns `fuel`: the newline of a blank line is not passed over. -/
def existsIn (name : CString) : Nat → CString → Option Bool
  | 0, _ => none
  | fuel + 1, p =>
      if p = [] then some false
      -- `llen > 0` fails, so `p` stays at the newline
      else if lineAt p = [] then existsIn name fuel (behindLine p)
      else if namedBy name (lineAt p) then some true
      else existsIn name fuel (nextLine p)

theorem nextLine_length_lt {p : CString} (some_byte : p ≠ []) : (nextLine p).length < p.length := by
  have one := List.length_pos_iff.2 some_byte
  simp only [nextLine, behindLine, List.length_drop]
  cases p with
  | nil => exact absurd rfl some_byte
  | cons c s =>
      simp only [List.length_cons] at one ⊢
      omega

/-- The loop of `replace_shadow_line` and of `remove_line`: a turn gets the line, and whether
the text ends with it. -/
def scan {σ : Type} (turn : CString → Bool → σ → σ) (p : CString) (s : σ) : σ :=
  if p = [] then s
  else scan turn (nextLine p) (turn (lineAt p) (behindLine p).isEmpty s)
termination_by p.length
decreasing_by exact nextLine_length_lt ‹_›

/-- `tmp` up to what is written, `pos`, `found`, and whether all writes were inside `tmp`. -/
structure Replacing where
  tmp : CString
  pos : Nat
  found : Bool
  inside : Bool

/-- What `snprintf` is to write for the user. -/
def shadowEntry (name hash : CString) : CString := name ++ colon :: hash ++ [newline]

/-- A turn of `replace_shadow_line`: `snprintf` gets what is left of `tmp`, a size that wraps
when `pos` is behind it, and returns the whole length. -/
def replaceTurn (name hash line : CString) (last : Bool) (s : Replacing) : Replacing :=
  if line = [] then
    if !last && decide (s.pos + 1 < passwdFileBuf) then
      { s with tmp := s.tmp ++ [newline], pos := s.pos + 1 }
    else s
  else if namedBy name line then
    { tmp := s.tmp ++ (shadowEntry name hash).take (passwdFileBuf - 1 - s.pos)
      pos := s.pos + (shadowEntry name hash).length
      found := true
      inside := s.inside && decide (s.pos ≤ passwdFileBuf) }
  else if s.pos + line.length + 1 < passwdFileBuf then
    { s with
      tmp := s.tmp ++ line ++ if last then [] else [newline]
      pos := s.pos + line.length + if last then 0 else 1 }
  else s

/-- `replace_shadow_line`; the zero is written at `pos`. -/
def replaceShadowLine (name hash buf : CString) : Replacing :=
  let s := scan (replaceTurn name hash) buf ⟨[], 0, false, true⟩
  { s with inside := s.inside && decide (s.pos < passwdFileBuf) }

/-- What is before `out` in the buffer, the offset of `p`, `found`, and whether only bytes that
had been read are written over. -/
structure Removing where
  out : CString
  read : Nat
  found : Bool
  inside : Bool

/-- A turn of `remove_line`. -/
def removeTurn (name line : CString) (last : Bool) (s : Removing) : Removing :=
  let read := s.read + line.length + if last then 0 else 1
  if line = [] then { s with read := read }
  else if namedBy name line then { s with read := read, found := true }
  else
    let out := s.out ++ line ++ if last then [] else [newline]
    { s with out := out, read := read, inside := s.inside && decide (out.length ≤ read) }

/-- `remove_line`. -/
def removeLine (name buf : CString) : Removing :=
  scan (removeTurn name) buf ⟨[], 0, false, true⟩

/-- The arguments of `useradd`. -/
structure NewUser where
  username : CString
  uid : UInt32
  gid : UInt32
  home : CString
  shell : CString

/-- The new line of `/etc/passwd`, without its newline. -/
def NewUser.passwdLine (u : NewUser) : CString :=
  u.username ++ colon :: utoa u.uid ++ colon :: utoa u.gid ++ colon :: u.home ++
    colon :: u.shell

/-- The new line of `/etc/shadow`. -/
def NewUser.shadowLine (u : NewUser) : CString :=
  u.username ++ colon :: hashHex (fnv1a64 u.username initialPassword)

/-- The new line of `/etc/group`. -/
def NewUser.groupLine (u : NewUser) : CString :=
  u.username ++ colon :: utoa u.gid ++ [colon]

/-- A file is read, its buffer is extended and written.  The copy is as long as the whole text,
so that it reads behind `line` if that is too short for it. -/
def extendFile (content line : CString) (stores : Bool) : Option CString :=
  if content.length + (line.length + 1) + 1 < userFileBuf then
    -- `line` holds the text and its zero only if it is shorter
    if line.length + 1 < lineBuf then
      some (if stores then content ++ line ++ [newline] else content)
    else none
  -- nothing is appended, and nothing is said
  else some content

/-- The account files. -/
structure AccountFiles where
  passwd : CString
  shadow : CString
  group : CString

/-- The files after `useradd`; `none` is one whose new bytes are read from elsewhere. -/
structure Extended where
  passwd : Option CString
  shadow : Option CString
  group : Option CString

/-- The files that can be written. -/
structure Stores where
  passwd : Bool
  shadow : Bool
  group : Bool

/-- `useradd` from the files on, which have been read and fit their buffers: the files when it
reports success. -/
def useradd (fuel : Nat) (files : AccountFiles) (u : NewUser) (stores : Stores) :
    Option Extended := do
  let known ← existsIn u.username fuel (bufText files.passwd)
  if known then none
  else
    let inGroup ← existsIn u.username fuel (bufText files.group)
    some
      { passwd := extendFile files.passwd u.passwdLine stores.passwd
        shadow := extendFile files.shadow u.shadowLine stores.shadow
        group := if inGroup then some files.group
          else extendFile files.group u.groupLine stores.group }

/-! ## What is expected -/

/-- The lines of a text; the last one need not end with a newline. -/
def textLines (p : CString) : List CString := pieces newline p

@[simp] theorem textLines_nil : textLines [] = [] := rfl

@[simp] theorem textLines_newline : textLines [newline] = [[]] := rfl

/-- The lines that are not empty. -/
def nonblank (lines : List CString) : List CString := lines.filter (· ≠ [])

/-- `exists_in` ends, and finds the user if a line is the user's. -/
def ExistsExact (name content : CString) : Prop :=
  ∃ fuel, existsIn name fuel (bufText content) =
    some ((textLines (bufText content)).any (namedBy name))

/-- The line that is to take the place of a line. -/
def replaced (name hash line : CString) : CString :=
  if namedBy name line then name ++ colon :: hash else line

/-- `replace_shadow_line` writes inside its buffer, replaces the user's lines and keeps the
others. -/
def ReplaceExact (name hash content : CString) : Prop :=
  (replaceShadowLine name hash (bufText content)).inside = true ∧
    nonblank (textLines (replaceShadowLine name hash (bufText content)).tmp) =
      (nonblank (textLines (bufText content))).map (replaced name hash)

/-- `remove_line` writes only over what it has read, and keeps the lines of others. -/
def RemoveExact (name content : CString) : Prop :=
  (removeLine name (bufText content)).inside = true ∧
    textLines (removeLine name (bufText content)).out =
      (nonblank (textLines (bufText content))).filter fun l => !namedBy name l

/-- A file consists of its former lines and a new one. -/
def ExtendExact (content line : CString) (now : Option CString) : Prop :=
  ∃ s, now = some s ∧ s.getLast? = some newline ∧ textLines s = textLines content ++ [line]

/-- When `useradd` reports success the account and its group, if that was not there, have been
added. -/
def UseraddExact (files : AccountFiles) (u : NewUser) (stores : Stores) : Prop :=
  ∀ fuel now, useradd fuel files u stores = some now →
    ExtendExact files.passwd u.passwdLine now.passwd ∧
      ExtendExact files.shadow u.shadowLine now.shadow ∧
      ((textLines (bufText files.group)).any (namedBy u.username) = false →
        ExtendExact files.group u.groupLine now.group)

/-- No line is blank before the first one of the user, or at all if there is none. -/
def NoBlankBefore (name content : CString) : Prop :=
  ∀ l ∈ (textLines (bufText content)).takeWhile fun l => !namedBy name l, l ≠ []

/-- With the lines replaced, the text up to the end of each line that is not empty, with a
newline there, fits in the buffer with its zero. -/
def ReplaceFits (name hash content : CString) : Prop :=
  ∀ front l back, textLines (bufText content) = front ++ l :: back → l ≠ [] →
    ((front ++ [l]).map fun m => (replaced name hash m).length + 1).sum < passwdFileBuf

/-- The file can be written, it is empty or ends with a newline, and the new line is one line
and fits in both buffers. -/
def ExtendFits (content line : CString) (stores : Bool) : Prop :=
  stores = true ∧ (content = [] ∨ content.getLast? = some newline) ∧ newline ∉ line ∧
    line.length + 1 < lineBuf ∧ content.length + (line.length + 1) + 1 < userFileBuf

/-- Every file that is to be extended can be, if `exists_in` ends and does not find the user. -/
def UseraddFits (files : AccountFiles) (u : NewUser) (stores : Stores) : Prop :=
  NoBlankBefore u.username files.passwd →
    (textLines (bufText files.passwd)).any (namedBy u.username) = false →
    NoBlankBefore u.username files.group →
    ExtendFits files.passwd u.passwdLine stores.passwd ∧
      ExtendFits files.shadow u.shadowLine stores.shadow ∧
      ((textLines (bufText files.group)).any (namedBy u.username) = false →
        ExtendFits files.group u.groupLine stores.group)

/-! ## Lines -/

/-- A line can start behind the text. -/
def Ended (a : CString) : Prop := a = [] ∨ a.getLast? = some newline

theorem newline_notMem_lineAt (p : CString) : newline ∉ lineAt p := by
  intro mem
  have other := List.mem_takeWhile_imp mem
  simp at other

/-- The bytes of a text behind its lines. -/
theorem behindLine_spec (p : CString) :
    p = lineAt p ++ behindLine p ∧ (behindLine p = [] ∨ behindLine p = newline :: nextLine p) := by
  have all : lineAt p ++ p.dropWhile (· ≠ newline) = p := List.takeWhile_append_dropWhile
  have tail : behindLine p = p.dropWhile (· ≠ newline) := by
    have dropped := congrArg (List.drop (lineAt p).length) all
    rw [List.drop_left] at dropped
    exact dropped.symm
  refine ⟨by rw [tail, all], ?_⟩
  cases behind : behindLine p with
  | nil => exact .inl rfl
  | cons c s =>
      have stop := List.head?_dropWhile_not (· ≠ newline) p
      rw [← tail, behind] at stop
      simp only [List.head?_cons] at stop
      refine .inr ?_
      rw [nextLine, behind, List.drop_one, List.tail_cons]
      simpa using stop

/-- The scanners read the lines of the text. -/
theorem textLines_eq {p : CString} (some_byte : p ≠ []) :
    textLines p = lineAt p :: textLines (nextLine p) := by
  obtain ⟨parts, last | more⟩ := behindLine_spec p
  · have whole : lineAt p = p := by
      rw [last, List.append_nil] at parts
      exact parts.symm
    have one : newline ∉ p := whole ▸ newline_notMem_lineAt p
    rw [nextLine, last, List.drop_nil, whole, textLines, pieces_of_notMem one some_byte]
    rfl
  · rw [more] at parts
    conv_lhs => rw [parts]
    exact pieces_append_cons (newline_notMem_lineAt p)

/-- The lines of a text behind one that ends with a newline. -/
theorem textLines_append {a : CString} (b : CString) (ended : Ended a) :
    textLines (a ++ b) = textLines a ++ textLines b := by
  by_cases no_byte : a = []
  · subst no_byte
    rfl
  have feed := ended.resolve_left no_byte
  obtain ⟨parts, last | more⟩ := behindLine_spec a
  · rw [last, List.append_nil] at parts
    rw [parts] at feed
    exact absurd (List.mem_of_getLast? feed) (newline_notMem_lineAt a)
  · rw [more] at parts
    have next_ended : Ended (nextLine a) := by
      by_cases none_left : nextLine a = []
      · exact .inl none_left
      · rw [parts, List.getLast?_append, List.getLast?_cons] at feed
        cases last : (nextLine a).getLast? with
        | none => exact .inl (List.getLast?_eq_none_iff.1 last)
        | some c =>
            rw [last] at feed
            exact .inr (last.trans (by simpa using feed))
    have rec_eq := textLines_append b next_ended
    rw [textLines_eq no_byte, List.cons_append, ← rec_eq]
    conv_lhs => rw [parts]
    rw [List.append_assoc, List.cons_append]
    exact pieces_append_cons (newline_notMem_lineAt a)
termination_by a.length
decreasing_by exact nextLine_length_lt no_byte

theorem lineAt_append {l : CString} (one : newline ∉ l) (s : CString) :
    lineAt (l ++ newline :: s) = l ∧ nextLine (l ++ newline :: s) = s := by
  have line : lineAt (l ++ newline :: s) = l := by
    rw [lineAt, List.takeWhile_append_of_pos]
    · simp
    · intro c mem
      have other : c ≠ newline := fun feed => one (feed ▸ mem)
      simpa using other
  refine ⟨line, ?_⟩
  rw [nextLine, behindLine, line, List.drop_left]
  rfl

theorem textLines_line {l : CString} (one : newline ∉ l) : textLines (l ++ [newline]) = [l] :=
  pieces_append_cons one

theorem textLines_last {l : CString} (one : newline ∉ l) (some_byte : l ≠ []) :
    textLines l = [l] := pieces_of_notMem one some_byte

/-- A line that is written behind the last one. -/
theorem textLines_push {a l : CString} (last : Bool) (ended : Ended a) (some_byte : l ≠ [])
    (one : newline ∉ l) :
    textLines (a ++ l ++ if last then [] else [newline]) = textLines a ++ [l] := by
  rw [List.append_assoc, textLines_append _ ended]
  cases last with
  | true => simp [textLines_last one some_byte]
  | false => simp [textLines_line one]

theorem ended_push (a l : CString) : Ended (a ++ l ++ [newline]) := .inr (by simp)

theorem nonblank_append (as bs : List CString) : nonblank (as ++ bs) = nonblank as ++ nonblank bs :=
  List.filter_append ..

theorem nonblank_blank (as : List CString) : nonblank ([] :: as) = nonblank as := by
  simp [nonblank]

theorem nonblank_cons {l : CString} (as : List CString) (some_byte : l ≠ []) :
    nonblank (l :: as) = l :: nonblank as := by
  simp [nonblank, some_byte]

/-- A blank line ends with a newline. -/
theorem behindLine_of_blank {p : CString} (some_byte : p ≠ []) (blank : lineAt p = []) :
    behindLine p = p ∧ (behindLine p).isEmpty = false := by
  have same : behindLine p = p := by rw [behindLine, blank, List.length_nil, List.drop_zero]
  rw [same]
  exact ⟨rfl, by simpa using some_byte⟩

@[simp] theorem namedBy_nil (name : CString) : namedBy name [] = false := rfl

/-- The line of a user starts with the name. -/
theorem of_namedBy {name line : CString} (user : namedBy name line = true) :
    ∃ fields, line = name ++ colon :: fields := by
  rw [namedBy] at user
  cases parts : cut colon line with
  | none =>
      rw [parts] at user
      cases user
  | some r =>
      rw [parts] at user
      obtain ⟨whole, -⟩ := eq_of_cut parts
      have name_eq : r.1 = name := by simpa using user
      exact ⟨r.2, name_eq ▸ whole⟩

/-! ## Finding -/

/-- The newline of a blank line is never passed. -/
theorem existsIn_blank {name p : CString} (some_byte : p ≠ []) (blank : lineAt p = []) :
    ∀ fuel, existsIn name fuel p = none
  | 0 => rfl
  | fuel + 1 => by
      rw [existsIn, if_neg some_byte, if_pos blank, (behindLine_of_blank some_byte blank).1]
      exact existsIn_blank some_byte blank fuel

/-- If `exists_in` ends, it has met no blank line and its answer is right. -/
theorem of_existsIn {name : CString} : ∀ {fuel : Nat} {p : CString} {found : Bool},
    existsIn name fuel p = some found →
      (∀ l ∈ (textLines p).takeWhile fun l => !namedBy name l, l ≠ []) ∧
        found = (textLines p).any (namedBy name)
  | fuel + 1, p, found, ended => by
      by_cases no_byte : p = []
      · subst no_byte
        have answer : some false = some found := ended
        exact ⟨by simp, (Option.some.inj answer).symm⟩
      · by_cases blank : lineAt p = []
        · rw [existsIn_blank no_byte blank] at ended
          cases ended
        · rw [existsIn, if_neg no_byte, if_neg blank] at ended
          rw [textLines_eq no_byte]
          by_cases user : namedBy name (lineAt p) = true
          · rw [if_pos user] at ended
            simp [user, ← Option.some.inj ended]
          · rw [if_neg user] at ended
            obtain ⟨clear, answer⟩ := of_existsIn ended
            simp only [Bool.not_eq_true] at user
            simp only [List.takeWhile_cons, List.any_cons, user, Bool.not_false, if_true,
              List.mem_cons, forall_eq_or_imp, Bool.false_or]
            exact ⟨⟨blank, clear⟩, answer⟩

/-- Where no blank line is met `exists_in` ends. -/
theorem existsIn_ends {name : CString} : ∀ {fuel : Nat} {p : CString}, p.length < fuel →
    (∀ l ∈ (textLines p).takeWhile fun l => !namedBy name l, l ≠ []) →
      existsIn name fuel p = some ((textLines p).any (namedBy name))
  | fuel + 1, p, enough, clear => by
      by_cases no_byte : p = []
      · subst no_byte
        rfl
      · have shorter := nextLine_length_lt no_byte
        rw [textLines_eq no_byte] at clear ⊢
        by_cases user : namedBy name (lineAt p) = true
        · have some_line : lineAt p ≠ [] := by
            intro blank
            rw [blank, namedBy_nil] at user
            cases user
          rw [existsIn, if_neg no_byte, if_neg some_line, if_pos user]
          simp [user]
        · simp only [Bool.not_eq_true] at user
          simp only [List.takeWhile_cons, user, Bool.not_false, if_true, List.mem_cons,
            forall_eq_or_imp] at clear
          rw [existsIn, if_neg no_byte, if_neg clear.1, user,
            existsIn_ends (show (nextLine p).length < fuel by omega) clear.2]
          simp [user]

theorem exists_exact_iff (name content : CString) :
    ExistsExact name content ↔ NoBlankBefore name content :=
  ⟨fun ⟨_, ended⟩ => (of_existsIn ended).1,
    fun clear => ⟨_, existsIn_ends (Nat.lt_succ_self _) clear⟩⟩

/-! ## Removing -/

/-- The loop of `remove_line` leaves the lines of others. -/
theorem scan_remove (name p : CString) (s : Removing) (ended : Ended s.out ∨ p = [])
    (inside : s.inside = true) (behind : s.out.length ≤ s.read) :
    (scan (removeTurn name) p s).inside = true ∧
      textLines (scan (removeTurn name) p s).out =
        textLines s.out ++ (nonblank (textLines p)).filter fun l => !namedBy name l := by
  rw [scan]
  by_cases no_byte : p = []
  · subst no_byte
    exact ⟨inside, by simp [nonblank]⟩
  · have ended := ended.resolve_right no_byte
    rw [if_neg no_byte, textLines_eq no_byte]
    generalize last_eq : (behindLine p).isEmpty = last
    by_cases blank : lineAt p = []
    · rw [blank, nonblank_blank, removeTurn, if_pos rfl]
      exact scan_remove name (nextLine p) _ (.inl ended) inside
        (by
          simp only
          omega)
    · rw [nonblank_cons _ blank]
      by_cases user : namedBy name (lineAt p) = true
      · rw [removeTurn, if_neg blank, if_pos user]
        simp only [List.filter_cons, user, Bool.not_true]
        exact scan_remove name (nextLine p) _ (.inl ended) inside
          (by
            simp only
            omega)
      · rw [removeTurn, if_neg blank, if_neg user]
        simp only [Bool.not_eq_true] at user
        simp only [List.filter_cons, user, Bool.not_false, if_true]
        have pushed := textLines_push last ended blank (newline_notMem_lineAt p)
        have ends : Ended (s.out ++ lineAt p ++ if last = true then [] else [newline]) ∨
            nextLine p = [] := by
          cases last with
          | true =>
              rw [List.isEmpty_iff] at last_eq
              exact .inr (by rw [nextLine, last_eq, List.drop_nil])
          | false => exact .inl (ended_push _ _)
        have shorter : (s.out ++ lineAt p ++ if last = true then [] else [newline]).length ≤
            s.read + (lineAt p).length + if last = true then 0 else 1 := by
          cases last with
          | true => simpa using behind
          | false =>
              simp only [List.length_append, Bool.false_eq_true, if_false, List.length_singleton]
              omega
        have still : (s.inside && decide
            ((s.out ++ lineAt p ++ if last = true then [] else [newline]).length ≤
              s.read + (lineAt p).length + if last = true then 0 else 1)) = true := by
          rw [inside, decide_eq_true shorter]
          rfl
        obtain ⟨stays, lines⟩ := scan_remove name (nextLine p) ⟨_, _, s.found, _⟩ ends still shorter
        refine ⟨stays, lines.trans ?_⟩
        simp only [pushed]
        exact List.append_assoc ..
termination_by p.length
decreasing_by all_goals exact nextLine_length_lt no_byte

theorem remove_exact (name content : CString) : RemoveExact name content :=
  scan_remove name _ ⟨[], 0, false, true⟩ (.inl (.inl rfl)) rfl (le_refl 0)

/-! ## Replacing -/

/-- The texts up to the lines that are not empty fit behind `pos`. -/
def Room (name hash : CString) (pos : Nat) (lines : List CString) : Prop :=
  ∀ front l back, lines = front ++ l :: back → l ≠ [] →
    pos + ((front ++ [l]).map fun m => (replaced name hash m).length + 1).sum < passwdFileBuf

theorem room_cons (name hash : CString) (pos : Nat) (l : CString) (ls : List CString) :
    Room name hash pos (l :: ls) ↔
      (l ≠ [] → pos + ((replaced name hash l).length + 1) < passwdFileBuf) ∧
        Room name hash (pos + ((replaced name hash l).length + 1)) ls := by
  constructor
  · intro room
    refine ⟨fun some_byte => by simpa using room [] l ls rfl some_byte, ?_⟩
    intro front m back parts some_byte
    have fits := room (l :: front) m back (by rw [parts, List.cons_append]) some_byte
    simp only [List.cons_append, List.map_cons, List.sum_cons] at fits
    omega
  · rintro ⟨first, rest⟩ front m back parts some_byte
    cases front with
    | nil =>
        obtain ⟨rfl, rfl⟩ := List.cons.inj parts
        simpa using first some_byte
    | cons x front =>
        obtain ⟨rfl, tail⟩ := List.cons.inj parts
        have fits := rest front m back tail some_byte
        simp only [List.cons_append, List.map_cons, List.sum_cons]
        omega

/-- In a full buffer there is room for blank lines only. -/
theorem room_full {name hash : CString} {pos : Nat} {lines : List CString}
    (full : passwdFileBuf ≤ pos + 1) : Room name hash pos lines ↔ nonblank lines = [] := by
  rw [nonblank, List.filter_eq_nil_iff]
  constructor
  · intro room l mem
    obtain ⟨front, back, parts⟩ := List.append_of_mem mem
    by_cases blank : l = []
    · simp [blank]
    · have fits := room front l back parts blank
      simp only [List.map_append, List.map_singleton, List.sum_append, List.sum_singleton] at fits
      omega
  · intro blanks front l back parts some_byte
    have blank := blanks l (by simp [parts])
    simp [some_byte] at blank

/-- `pos` never goes back. -/
theorem replaceTurn_pos_le (name hash line : CString) (last : Bool) (s : Replacing) :
    s.pos ≤ (replaceTurn name hash line last s).pos := by
  rw [replaceTurn]
  split
  · split
    · exact Nat.le_succ _
    · exact le_refl _
  · split
    · exact Nat.le_add_right _ _
    · split
      · simp only
        omega
      · exact le_refl _

theorem scan_pos_le (name hash p : CString) (s : Replacing) :
    s.pos ≤ (scan (replaceTurn name hash) p s).pos := by
  rw [scan]
  by_cases no_byte : p = []
  · rw [if_pos no_byte]
  · rw [if_neg no_byte]
    exact (replaceTurn_pos_le ..).trans (scan_pos_le name hash (nextLine p) _)
termination_by p.length
decreasing_by exact nextLine_length_lt no_byte

/-- `tmp` holds whole lines up to `pos`, or no line is left. -/
structure Replacing.Good (s : Replacing) (p : CString) : Prop where
  ended : Ended s.tmp ∨ p = []
  at_pos : s.pos = s.tmp.length
  inside : s.inside = true
  fits : s.pos < passwdFileBuf

/-- What the loop makes of a text from a state. -/
structure Replaces (name hash p : CString) (s r : Replacing) : Prop where
  fits : Room name hash s.pos (textLines p) → r.pos < passwdFileBuf
  inside : r.pos < passwdFileBuf → r.inside = true
  lines : r.pos < passwdFileBuf → ∃ kept,
    nonblank (textLines r.tmp) = nonblank (textLines s.tmp) ++ kept ∧
      kept.length ≤ (nonblank (textLines p)).length ∧
      (Room name hash s.pos (textLines p) →
        kept = (nonblank (textLines p)).map (replaced name hash)) ∧
      (kept.length = (nonblank (textLines p)).length → Room name hash s.pos (textLines p))

/-- A line that is written, in front of what the loop makes of the others. -/
theorem Replaces.push {name hash p : CString} {s s' r : Replacing} (no_byte : p ≠ [])
    (some_line : lineAt p ≠ [])
    (pos : s'.pos = s.pos + ((replaced name hash (lineAt p)).length + 1) ∨
      nextLine p = [] ∧ s'.pos < passwdFileBuf)
    (fits : s.pos + ((replaced name hash (lineAt p)).length + 1) < passwdFileBuf)
    (tmp : nonblank (textLines s'.tmp) =
      nonblank (textLines s.tmp) ++ [replaced name hash (lineAt p)])
    (rest : Replaces name hash (nextLine p) s' r) : Replaces name hash p s r := by
  have room_iff : Room name hash s.pos (textLines p) ↔
      Room name hash s'.pos (textLines (nextLine p)) := by
    rw [textLines_eq no_byte, room_cons]
    rcases pos with pos | ⟨none_left, -⟩
    · rw [pos]
      exact and_iff_right fun _ => fits
    · rw [none_left]
      have none_fits : ∀ pos, Room name hash pos (textLines []) := by
        intro pos front l back parts
        simp at parts
      exact ⟨fun _ => none_fits _, fun _ => ⟨fun _ => fits, none_fits _⟩⟩
  have count : nonblank (textLines p) = lineAt p :: nonblank (textLines (nextLine p)) := by
    rw [textLines_eq no_byte, nonblank_cons _ some_line]
  refine ⟨fun room => rest.fits (room_iff.1 room), rest.inside, fun in_buf => ?_⟩
  obtain ⟨kept, lines, few, all, room⟩ := rest.lines in_buf
  refine ⟨replaced name hash (lineAt p) :: kept, ?_, ?_, fun has_room => ?_, fun same => ?_⟩
  · rw [lines, tmp, List.append_assoc]
    rfl
  · rw [count, List.length_cons, List.length_cons]
    omega
  · rw [count, List.map_cons, all (room_iff.1 has_room)]
  · rw [count, List.length_cons, List.length_cons] at same
    exact room_iff.2 (room (by omega))

/-- A blank line, which is written or left out. -/
theorem Replaces.blank {name hash p : CString} {s s' r : Replacing} (no_byte : p ≠ [])
    (blank : lineAt p = [])
    (room_iff : Room name hash s.pos (textLines p) ↔ Room name hash s'.pos (textLines (nextLine p)))
    (tmp : nonblank (textLines s'.tmp) = nonblank (textLines s.tmp))
    (rest : Replaces name hash (nextLine p) s' r) : Replaces name hash p s r := by
  have count : nonblank (textLines p) = nonblank (textLines (nextLine p)) := by
    rw [textLines_eq no_byte, blank, nonblank_blank]
  refine ⟨fun room => rest.fits (room_iff.1 room), rest.inside, fun in_buf => ?_⟩
  rw [count, room_iff, ← tmp]
  exact rest.lines in_buf

/-- A line that is left out for want of room. -/
theorem Replaces.drop {name hash p : CString} {s r : Replacing} (no_byte : p ≠ [])
    (some_line : lineAt p ≠ []) (no_room : ¬ Room name hash s.pos (textLines p))
    (rest : Replaces name hash (nextLine p) s r) : Replaces name hash p s r := by
  refine ⟨fun room => absurd room no_room, rest.inside, fun in_buf => ?_⟩
  obtain ⟨kept, lines, few, -, -⟩ := rest.lines in_buf
  have count : nonblank (textLines p) = lineAt p :: nonblank (textLines (nextLine p)) := by
    rw [textLines_eq no_byte, nonblank_cons _ some_line]
  refine ⟨kept, lines, ?_, fun room => absurd room no_room, fun whole => ?_⟩
  · rw [count, List.length_cons]
    omega
  · rw [count, List.length_cons] at whole
    omega

/-- A line of the user for which there is no room. -/
theorem Replaces.leave {name hash p : CString} {s r : Replacing}
    (no_room : ¬ Room name hash s.pos (textLines p)) (out : ¬ r.pos < passwdFileBuf) :
    Replaces name hash p s r :=
  ⟨fun room => absurd room no_room, fun in_buf => absurd in_buf out,
    fun in_buf => absurd in_buf out⟩

theorem replaced_user {name hash line : CString} (user : namedBy name line = true) :
    replaced name hash line = name ++ colon :: hash := if_pos user

theorem replaced_other {name line : CString} (hash : CString) (other : namedBy name line = false) :
    replaced name hash line = line := if_neg (by simp [other])

theorem newline_notMem_replaced (name p : CString) {hash : CString} (clean : newline ∉ hash) :
    newline ∉ replaced name hash (lineAt p) := by
  cases user : namedBy name (lineAt p) with
  | false =>
      rw [replaced_other hash user]
      exact newline_notMem_lineAt p
  | true =>
      rw [replaced_user user]
      obtain ⟨fields, parts⟩ := of_namedBy user
      intro mem
      rcases List.mem_append.1 mem with in_name | in_rest
      · exact newline_notMem_lineAt p (parts ▸ List.mem_append_left _ in_name)
      · rcases List.mem_cons.1 in_rest with feed | in_hash
        · exact absurd feed (by decide)
        · exact clean in_hash

theorem replaced_ne_nil (name hash : CString) {line : CString} (some_byte : line ≠ []) :
    replaced name hash line ≠ [] := by
  cases user : namedBy name line with
  | false =>
      rw [replaced_other hash user]
      exact some_byte
  | true =>
      rw [replaced_user user]
      simp

/-- The loop of `replace_shadow_line` drops a line exactly when there is no room for it, and
goes behind `tmp` exactly when there is no room for a line of the user. -/
theorem scan_replace (name : CString) {hash : CString} (clean : newline ∉ hash) (p : CString)
    (s : Replacing) (good : s.Good p) :
    Replaces name hash p s (scan (replaceTurn name hash) p s) := by
  obtain ⟨ended, at_pos, inside, in_buf⟩ := good
  rw [scan]
  by_cases no_byte : p = []
  · subst no_byte
    refine ⟨fun _ => in_buf, fun _ => inside, fun _ => ⟨[], ?_, by simp, fun _ => ?_, ?_⟩⟩
    · simp
    · simp [nonblank]
    · intro _ front l back parts
      simp at parts
  have ended := ended.resolve_right no_byte
  rw [if_neg no_byte]
  by_cases blank : lineAt p = []
  -- a blank line takes a byte as long as there is one
  · have more := (behindLine_of_blank no_byte blank).2
    have one : (replaced name hash []).length = 0 := by
      rw [replaced_other hash (namedBy_nil name), List.length_nil]
    have room_iff : Room name hash s.pos (textLines p) ↔
        Room name hash (s.pos + 1) (textLines (nextLine p)) := by
      rw [textLines_eq no_byte, blank, room_cons, one]
      exact and_iff_right fun some_byte => absurd rfl some_byte
    rw [blank, more, replaceTurn, if_pos rfl]
    by_cases full : s.pos + 1 < passwdFileBuf
    · rw [if_pos (by simp [full])]
      have rest := scan_replace name clean (nextLine p)
        ⟨s.tmp ++ [newline], s.pos + 1, s.found, s.inside⟩
        ⟨.inl (.inr (by simp)), by simp [at_pos], inside, full⟩
      have tmp : nonblank (textLines (s.tmp ++ [newline])) = nonblank (textLines s.tmp) := by
        rw [textLines_append _ ended, nonblank_append]
        simp [nonblank]
      exact rest.blank no_byte blank room_iff tmp
    · rw [if_neg (by simp [full])]
      have rest := scan_replace name clean (nextLine p) s ⟨.inl ended, at_pos, inside, in_buf⟩
      have same : Room name hash s.pos (textLines p) ↔
          Room name hash s.pos (textLines (nextLine p)) := by
        rw [room_iff, room_full (by omega), room_full (by omega)]
      exact rest.blank no_byte blank same rfl
  have one := newline_notMem_replaced name p clean
  have some_byte := replaced_ne_nil name hash blank
  have first : Room name hash s.pos (textLines p) →
      s.pos + ((replaced name hash (lineAt p)).length + 1) < passwdFileBuf := by
    rw [textLines_eq no_byte, room_cons]
    exact fun room => room.1 blank
  rw [replaceTurn, if_neg blank]
  cases user : namedBy name (lineAt p) with
  -- the user's line is written whether there is room or not
  | true =>
      have entry : shadowEntry name hash = replaced name hash (lineAt p) ++ [newline] := by
        rw [replaced_user user, shadowEntry, List.append_assoc, List.cons_append]
      have size : (shadowEntry name hash).length = (replaced name hash (lineAt p)).length + 1 := by
        rw [entry, List.length_append, List.length_singleton]
      rw [if_pos rfl, size]
      by_cases fits : s.pos + ((replaced name hash (lineAt p)).length + 1) < passwdFileBuf
      · have whole : (shadowEntry name hash).take (passwdFileBuf - 1 - s.pos) =
            replaced name hash (lineAt p) ++ [newline] := by
          rw [List.take_of_length_le (by omega), entry]
        have pushed := textLines_push false ended some_byte one
        simp only [Bool.false_eq_true, if_false, List.append_assoc] at pushed
        rw [whole]
        refine Replaces.push no_byte blank (.inl rfl) fits ?_
          (scan_replace name clean (nextLine p) _ ⟨.inl (.inr (by simp)), ?_, ?_, fits⟩)
        · simp only [pushed, nonblank_append, nonblank_cons [] some_byte]
          rfl
        · simp [at_pos]
        · simp [inside, le_of_lt in_buf]
      · have out : ¬ (scan (replaceTurn name hash) (nextLine p)
            { tmp := s.tmp ++ (shadowEntry name hash).take (passwdFileBuf - 1 - s.pos)
              pos := s.pos + ((replaced name hash (lineAt p)).length + 1)
              found := true
              inside := s.inside && decide (s.pos ≤ passwdFileBuf) }).pos < passwdFileBuf := by
          have later := scan_pos_le name hash (nextLine p)
            { tmp := s.tmp ++ (shadowEntry name hash).take (passwdFileBuf - 1 - s.pos)
              pos := s.pos + ((replaced name hash (lineAt p)).length + 1)
              found := true
              inside := s.inside && decide (s.pos ≤ passwdFileBuf) }
          simp only at later
          omega
        exact .leave (fun room => fits (first room)) out
  -- any other line is written if there is room
  | false =>
      have same := replaced_other hash user
      rw [same] at first some_byte one
      rw [if_neg Bool.false_ne_true]
      generalize last_eq : (behindLine p).isEmpty = last
      by_cases fits : s.pos + (lineAt p).length + 1 < passwdFileBuf
      · have pushed := textLines_push last ended blank one
        have none_left : last = true → nextLine p = [] := by
          rintro rfl
          rw [List.isEmpty_iff] at last_eq
          rw [nextLine, last_eq, List.drop_nil]
        rw [if_pos fits]
        refine Replaces.push no_byte blank ?_ (by rw [same]; omega) ?_
          (scan_replace name clean (nextLine p) _ ⟨?_, ?_, inside, ?_⟩)
        · cases last with
          | true => exact .inr ⟨none_left rfl, by simp only [if_true]; omega⟩
          | false => exact .inl (by rw [same]; simp only [Bool.false_eq_true, if_false]; omega)
        · simp only [pushed, nonblank_append, nonblank_cons [] blank, same]
          rfl
        · cases last with
          | true => exact .inr (none_left rfl)
          | false => exact .inl (ended_push _ _)
        · cases last with
          | true => simp [at_pos]
          | false =>
              simp [at_pos]
              omega
        · cases last with
          | true =>
              simp only [if_true]
              omega
          | false =>
              simp only [Bool.false_eq_true, if_false]
              omega
      · rw [if_neg fits]
        have no_room : ¬ Room name hash s.pos (textLines p) := fun room => fits (first room)
        have rest := scan_replace name clean (nextLine p) s ⟨.inl ended, at_pos, inside, in_buf⟩
        exact rest.drop no_byte blank no_room
termination_by p.length
decreasing_by all_goals exact nextLine_length_lt no_byte

/-- `replace_shadow_line` is exact when the lines fit as they are replaced. -/
theorem replace_exact_iff {name hash content : CString} (clean : newline ∉ hash) :
    ReplaceExact name hash content ↔ ReplaceFits name hash content := by
  have loop := scan_replace name clean (bufText content) ⟨[], 0, false, true⟩
    ⟨.inl (.inl rfl), rfl, rfl, by decide⟩
  have room_iff : Room name hash 0 (textLines (bufText content)) ↔
      ReplaceFits name hash content := by
    simp only [Room, ReplaceFits, Nat.zero_add]
  rw [← room_iff, ReplaceExact, replaceShadowLine]
  simp only [Bool.and_eq_true, decide_eq_true_eq]
  constructor
  · rintro ⟨⟨-, in_buf⟩, lines⟩
    obtain ⟨kept, kept_lines, -, -, room⟩ := loop.lines in_buf
    refine room ?_
    rw [kept_lines] at lines
    have start : nonblank (textLines []) = [] := rfl
    rw [start, List.nil_append] at lines
    rw [lines, List.length_map]
  · intro room
    have in_buf := loop.fits room
    obtain ⟨kept, kept_lines, -, all, -⟩ := loop.lines in_buf
    refine ⟨⟨loop.inside in_buf, in_buf⟩, ?_⟩
    rw [kept_lines, all room]
    rfl

theorem newline_notMem_hashHex (h : UInt64) : newline ∉ hashHex h := by
  intro mem
  obtain ⟨i, -, digit⟩ := List.mem_map.1 mem
  have sixteen : ∀ n : Fin 16, hexDigit (UInt64.ofNat n) ≠ newline := by decide
  have small : (h >>> UInt64.ofNat (4 * (15 - i)) &&& 15).toNat < 16 := by
    rw [UInt64.toNat_and]
    exact Nat.lt_succ_of_le Nat.and_le_right
  refine sixteen ⟨_, small⟩ ?_
  rw [← digit, UInt64.ofNat_toNat]

/-! ## Adding -/

/-- A line that is put behind one without a newline becomes part of it. -/
theorem textLines_merged {a l : CString} (one : newline ∉ l) (unended : ¬ Ended a) :
    (textLines (a ++ (l ++ [newline]))).length = (textLines a).length := by
  have no_byte : a ≠ [] := fun none_there => unended (.inl none_there)
  have whole_ne : a ++ (l ++ [newline]) ≠ [] := by simp
  obtain ⟨parts, last | more⟩ := behindLine_spec a
  -- the last line has no newline: the new text becomes its end
  · rw [last, List.append_nil] at parts
    have in_line : newline ∉ a := by
      rw [parts]
      exact newline_notMem_lineAt a
    have merged : newline ∉ a ++ l := by
      rw [List.mem_append, not_or]
      exact ⟨in_line, one⟩
    rw [← List.append_assoc, textLines_line merged, textLines_last in_line no_byte]
    rfl
  · rw [more] at parts
    have next_unended : ¬ Ended (nextLine a) := by
      rintro (none_there | feed)
      · refine unended (.inr ?_)
        rw [parts, none_there]
        simp
      · refine unended (.inr ?_)
        rw [parts, List.getLast?_append, List.getLast?_cons, feed]
        rfl
    have rec_eq := textLines_merged one next_unended
    have joined : a ++ (l ++ [newline]) =
        lineAt a ++ newline :: (nextLine a ++ (l ++ [newline])) := by
      conv_lhs => rw [parts]
      rw [List.append_assoc, List.cons_append]
    have scanned := lineAt_append (newline_notMem_lineAt a) (nextLine a ++ (l ++ [newline]))
    rw [← joined] at scanned
    rw [textLines_eq whole_ne, textLines_eq no_byte, scanned.2, List.length_cons, List.length_cons,
      rec_eq]
termination_by a.length
decreasing_by exact nextLine_length_lt no_byte

theorem extend_exact_iff (content line : CString) (stores : Bool) :
    ExtendExact content line (extendFile content line stores) ↔
      ExtendFits content line stores := by
  have no_line : ¬ textLines content = textLines content ++ [line] := by
    intro same
    have sizes := congrArg List.length same
    simp at sizes
  constructor
  · rintro ⟨s, now, -, lines⟩
    rw [extendFile] at now
    by_cases fits : content.length + (line.length + 1) + 1 < userFileBuf
    · rw [if_pos fits] at now
      by_cases short : line.length + 1 < lineBuf
      · rw [if_pos short] at now
        cases stores with
        | false =>
            have kept : content = s := by simpa using now
            rw [← kept] at lines
            exact absurd lines no_line
        | true =>
            have added : content ++ line ++ [newline] = s := by simpa using now
            have one : newline ∉ line :=
              notMem_of_mem_pieces (show line ∈ textLines s by rw [lines]; simp)
            refine ⟨rfl, ?_, one, short, fits⟩
            by_contra unended
            have sizes := congrArg List.length lines
            rw [← added, List.append_assoc, textLines_merged one unended] at sizes
            simp at sizes
      · rw [if_neg short] at now
        cases now
    · rw [if_neg fits] at now
      rw [← Option.some.inj now] at lines
      exact absurd lines no_line
  · rintro ⟨rfl, ended, one, short, fits⟩
    refine ⟨content ++ line ++ [newline], ?_, by simp, ?_⟩
    · rw [extendFile, if_pos fits, if_pos short, if_pos rfl]
    · rw [List.append_assoc, textLines_append _ ended, textLines_line one]

/-- `useradd` reports success when it does not find the user and both scans end. -/
theorem useradd_eq_some {fuel : Nat} {files : AccountFiles} {u : NewUser} {stores : Stores}
    {now : Extended} : useradd fuel files u stores = some now ↔
      existsIn u.username fuel (bufText files.passwd) = some false ∧
        ∃ inGroup, existsIn u.username fuel (bufText files.group) = some inGroup ∧
          now = ⟨extendFile files.passwd u.passwdLine stores.passwd,
            extendFile files.shadow u.shadowLine stores.shadow,
            if inGroup then some files.group
            else extendFile files.group u.groupLine stores.group⟩ := by
  simp only [useradd, Option.bind_eq_bind, Option.bind_eq_some_iff]
  constructor
  · rintro ⟨known, passwd, rest⟩
    cases known with
    | true => simp at rest
    | false =>
        simp only [Bool.false_eq_true, if_false, Option.bind_eq_some_iff] at rest
        obtain ⟨inGroup, group, now_eq⟩ := rest
        exact ⟨passwd, inGroup, group, (Option.some.inj now_eq).symm⟩
  · rintro ⟨passwd, inGroup, group, rfl⟩
    refine ⟨false, passwd, ?_⟩
    simp only [Bool.false_eq_true, if_false, Option.bind_eq_some_iff]
    exact ⟨inGroup, group, rfl⟩

theorem useradd_exact_iff (files : AccountFiles) (u : NewUser) (stores : Stores) :
    UseraddExact files u stores ↔ UseraddFits files u stores := by
  constructor
  · intro exact_when passwd_clear absent group_clear
    have enough : ∀ content : CString, content.length ≤
        (bufText files.passwd).length + (bufText files.group).length →
        content.length < (bufText files.passwd).length + (bufText files.group).length + 1 :=
      fun content le => Nat.lt_succ_of_le le
    -- as many turns as both files have bytes are enough for both scans
    have passwd := existsIn_ends (enough _ (Nat.le_add_right ..)) passwd_clear
    have group := existsIn_ends (enough _ (Nat.le_add_left ..)) group_clear
    rw [absent] at passwd
    obtain ⟨in_passwd, in_shadow, in_group⟩ :=
      exact_when _ _ (useradd_eq_some.2 ⟨passwd, _, group, rfl⟩)
    refine ⟨(extend_exact_iff ..).1 in_passwd, (extend_exact_iff ..).1 in_shadow,
      fun no_group => (extend_exact_iff ..).1 ?_⟩
    have added := in_group no_group
    rw [no_group] at added
    exact added
  · intro fits fuel now reports
    obtain ⟨passwd, inGroup, group, rfl⟩ := useradd_eq_some.1 reports
    obtain ⟨passwd_clear, absent⟩ := of_existsIn passwd
    obtain ⟨group_clear, in_group⟩ := of_existsIn group
    obtain ⟨in_passwd, in_shadow, new_group⟩ := fits passwd_clear absent.symm group_clear
    refine ⟨(extend_exact_iff ..).2 in_passwd, (extend_exact_iff ..).2 in_shadow,
      fun no_group => ?_⟩
    rw [no_group] at in_group
    rw [in_group]
    exact (extend_exact_iff ..).2 (new_group no_group)

/-- The tools edit the account files exactly under these conditions. -/
theorem account_files_exact_iff (name content password : CString) (files : AccountFiles)
    (u : NewUser) (stores : Stores) :
    (ExistsExact name content ↔ NoBlankBefore name content) ∧
      (ReplaceExact name (hashHex (fnv1a64 name password)) content ↔
        ReplaceFits name (hashHex (fnv1a64 name password)) content) ∧
      RemoveExact name content ∧
      (UseraddExact files u stores ↔ UseraddFits files u stores) :=
  ⟨exists_exact_iff name content, replace_exact_iff (newline_notMem_hashHex _),
    remove_exact name content, useradd_exact_iff files u stores⟩

/-- `exists_in` hangs on a blank line before the user's, and `useradd` makes one line of a last
line without a newline and the new one. -/
theorem blank_line_hangs :
    ¬ ExistsExact [97] [newline, 97, colon, newline] ∧
      ¬ UseraddExact ⟨[97, colon], [], []⟩ ⟨[98], 1001, 1001, [47], [47]⟩ ⟨true, true, true⟩ := by
  refine ⟨fun ended => ?_, fun added => ?_⟩
  · have clear := (exists_exact_iff ..).1 ended
    exact absurd rfl (clear [] (by decide))
  · have fits := (useradd_exact_iff ..).1 added (by unfold NoBlankBefore; decide) (by decide)
      (by unfold NoBlankBefore; decide)
    exact absurd fits.1.2.1 (by decide)

end NTux.Sys.Scan
