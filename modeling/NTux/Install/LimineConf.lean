import NTux.Install.CopyTree
import Mathlib.Data.List.Infix

/-!
# The boot configuration without the installer

`patch_limine_conf_remove_installer` of both installers.  A line is looked at where it stands
in the buffer, which goes on behind it, so a line is left out if a name of a module is in it or
anywhere behind it.

* `patchLimineConf` — the code, for the names it looks for and its limit.
* `withoutModules` — the content without the lines that have a module's name.
* `RightFor` — the contents for which they are the same.
* `patch_limine_conf_iff` — exactly those.
-/

namespace NTux.Install

open NTux.Fs

/-- The line feed. -/
abbrev lf : UInt8 := 10

/-! ## The code -/

/-- One of the names is found by `strstr`. -/
def hasName (names : List CString) (text : CString) : Bool := names.any fun n => n <:+: text

/-- The length of the line at the beginning of the text, with its line feed if there is one. -/
def lineLen (text : CString) : Nat :=
  if lf ∈ text then (text.takeWhile (· ≠ lf)).length + 1 else text.length

/-- The loop, with `out` written so far. -/
def patchLoop (names : List CString) (max : Nat) : Nat → CString → CString → CString
  | 0, _, out => out
  | fuel + 1, line, out =>
      if line = [] then out
      else
        let n := lineLen line
        let out :=
          if hasName names line then out
          else if out.length + n < max then out ++ line.take n else out
        if lf ∉ line then out else patchLoop names max fuel (line.drop n) out

/-- `patch_limine_conf_remove_installer` where the file is read, has no NUL and there is memory:
what is written. -/
def patchLimineConf (names : List CString) (max : Nat) (content : CString) : Option CString :=
  if content = [] ∨ max < content.length then none
  else
    let out := patchLoop names max content.length content []
    if out = [] ∨ max ≤ out.length then none else some out

/-- The function of `installer_term.c`. -/
def patchLimineConfTerm : CString → Option CString :=
  patchLimineConf
    [ascii "installer.elf", ascii "installer_term.elf", ascii "INSTALLER_TERM.ELF"] insFileMax

/-- The function of `installer.c`, whose limit is 512 MiB. -/
def patchLimineConfGraphical : CString → Option CString :=
  patchLimineConf [ascii "installer.elf", ascii "installer_term.elf"] (512 * 1024 * 1024)

/-! ## What is expected -/

/-- The lines, each with its line feed. -/
def splitLines : CString → List CString
  | [] => []
  | c :: s =>
      if c = lf then [c] :: splitLines s
      else match splitLines s with
        | [] => [[c]]
        | l :: ls => (c :: l) :: ls

/-- The content without the lines that have one of the names. -/
def withoutModules (modules : List CString) (content : CString) : CString :=
  ((splitLines content).filter fun l => !hasName modules l).flatten

/-- The modules that both installers leave out of a copy and remove. -/
def installerModules : List CString :=
  [ascii "installer.elf", ascii "INSTALLER.ELF", ascii "installer_term.elf",
    ascii "INSTALLER_TERM.ELF"]

/-- Lines with a module's name come first, the last of them with one that is looked for, and
what is behind them is not empty and shorter than the limit.  Or nothing is looked for and the
content has the length of the limit, so that the last line is not copied, and it is the only
one with a module's name. -/
def RightFor (names modules : List CString) (max : Nat) (content : CString) : Prop :=
  (∃ front back, splitLines content = front ++ back ∧ (∀ l ∈ front, hasName modules l = true) ∧
      (∀ l ∈ front.getLast?, hasName names l = true) ∧ (∀ l ∈ back, hasName modules l = false) ∧
      back ≠ [] ∧ back.flatten.length < max) ∨
    (content.length = max ∧ hasName names content = false ∧
      ∃ front l, splitLines content = front ++ [l] ∧ front ≠ [] ∧ hasName modules l = true ∧
        ∀ l ∈ front, hasName modules l = false)

/-! ## Lines -/

variable {names modules : List CString} {max : Nat} {s l : CString} {ls : List CString}

/-- Every line ends with its only line feed, but the last may have none. -/
def Lines : List CString → Prop
  | [] => True
  | l :: ls => (∃ a, lf ∉ a ∧ (l = a ++ [lf] ∨ l = a ∧ a ≠ [] ∧ ls = [])) ∧ Lines ls

theorem Lines.sublist {ls' : List CString} (lines : Lines ls) (sub : ls'.Sublist ls) :
    Lines ls' := by
  induction sub with
  | slnil => trivial
  | cons l sub ih => exact ih lines.2
  | @cons_cons l₁ l₂ l sub ih =>
      obtain ⟨⟨a, clean, ended | ⟨same, some_, last⟩⟩, rest⟩ := lines
      · exact ⟨⟨a, clean, .inl ended⟩, ih rest⟩
      · rw [last] at sub
        exact ⟨⟨a, clean, .inr ⟨same, some_, List.eq_nil_of_sublist_nil sub⟩⟩, ih rest⟩

theorem lines_splitLines (s : CString) : Lines (splitLines s) := by
  induction s with
  | nil => trivial
  | cons c s ih =>
      unfold splitLines
      split
      next ends => exact ⟨⟨[], by simp, .inl (by rw [ends]; rfl)⟩, ih⟩
      next ne =>
        split
        next none_left => exact ⟨⟨[c], by simp [Ne.symm ne], .inr ⟨rfl, by simp, rfl⟩⟩, trivial⟩
        next l ls eq =>
          rw [eq] at ih
          obtain ⟨⟨a, clean, ended | ⟨same, some_, last⟩⟩, rest⟩ := ih
          · exact ⟨⟨c :: a, by simp [Ne.symm ne, clean], .inl (by rw [ended]; rfl)⟩, rest⟩
          · exact ⟨⟨c :: a, by simp [Ne.symm ne, clean], .inr ⟨by rw [same], by simp, last⟩⟩, rest⟩

theorem splitLines_flatten (s : CString) : (splitLines s).flatten = s := by
  induction s with
  | nil => rfl
  | cons c s ih =>
      unfold splitLines
      split
      · rw [List.flatten_cons, ih, List.singleton_append]
      · split
        next eq =>
          rw [eq] at ih
          rw [← ih]
          rfl
        next eq =>
          rw [eq] at ih
          rw [← ih]
          rfl

theorem splitLines_append (clean : lf ∉ l) (s : CString) :
    splitLines (l ++ lf :: s) = (l ++ [lf]) :: splitLines s := by
  induction l with
  | nil => rw [List.nil_append, splitLines, if_pos rfl, List.nil_append]
  | cons c l ih =>
      rw [List.mem_cons, not_or] at clean
      rw [List.cons_append, splitLines, if_neg (Ne.symm clean.1), ih clean.2]
      rfl

theorem splitLines_of_notMem (clean : lf ∉ s) (some_ : s ≠ []) : splitLines s = [s] := by
  induction s with
  | nil => exact absurd rfl some_
  | cons c s ih =>
      rw [List.mem_cons, not_or] at clean
      rw [splitLines, if_neg (Ne.symm clean.1)]
      rcases List.eq_nil_or_concat s with rfl | ⟨_, _, rfl⟩
      · rfl
      · rw [ih clean.2 (by simp)]

/-- Lines are told from their text. -/
theorem Lines.split (lines : Lines ls) : splitLines ls.flatten = ls := by
  induction ls with
  | nil => rfl
  | cons l ls ih =>
      obtain ⟨⟨a, clean, rfl | ⟨rfl, some_, rfl⟩⟩, rest⟩ := lines
      · rw [List.flatten_cons, List.append_assoc, List.singleton_append, splitLines_append clean,
          ih rest]
      · rw [List.flatten_cons, List.flatten_nil, List.append_nil, splitLines_of_notMem clean some_]

theorem Lines.ne_nil (lines : Lines ls) (mem : l ∈ ls) : l ≠ [] := by
  induction ls with
  | nil => cases mem
  | cons k ls ih =>
      obtain ⟨⟨a, -, ended⟩, rest⟩ := lines
      rcases List.mem_cons.1 mem with rfl | mem
      · rcases ended with rfl | ⟨rfl, some_, -⟩
        · simp
        · exact some_
      · exact ih rest mem

/-! ## Names in lines -/

theorem prefix_line {n : CString} (clean : lf ∉ n) (a b : CString) :
    n <+: a ++ lf :: b ↔ n <+: a := by
  induction a generalizing n with
  | nil =>
      cases n with
      | nil => simp
      | cons c n =>
          rw [List.mem_cons, not_or] at clean
          simp [List.cons_prefix_cons, Ne.symm clean.1]
  | cons d a ih =>
      cases n with
      | nil => simp
      | cons c n =>
          rw [List.mem_cons, not_or] at clean
          rw [List.cons_append, List.cons_prefix_cons, List.cons_prefix_cons, ih clean.2]

/-- A name does not go over the end of a line. -/
theorem infix_line {n : CString} (clean : lf ∉ n) (a b : CString) :
    n <:+: a ++ lf :: b ↔ n <:+: a ∨ n <:+: b := by
  induction a with
  | nil =>
      have none_before := prefix_line clean [] b
      rw [List.nil_append] at none_before ⊢
      rw [List.infix_cons_iff, none_before, List.infix_nil, List.prefix_nil]
  | cons d a ih =>
      have before := prefix_line clean (d :: a) b
      rw [List.cons_append] at before ⊢
      rw [List.infix_cons_iff, List.infix_cons_iff, before, ih, or_assoc]

/-- The names are not empty and have no line feed. -/
def Plain (names : List CString) : Prop := ∀ n ∈ names, n ≠ [] ∧ lf ∉ n

theorem hasName_append (plain : Plain names) (a b : CString) :
    hasName names (a ++ lf :: b) = (hasName names a || hasName names b) := by
  rw [Bool.eq_iff_iff, Bool.or_eq_true]
  simp only [hasName, List.any_eq_true, decide_eq_true_eq]
  constructor
  · rintro ⟨n, mem, found⟩
    rcases (infix_line (plain n mem).2 a b).1 found with left | right
    · exact .inl ⟨n, mem, left⟩
    · exact .inr ⟨n, mem, right⟩
  · rintro (⟨n, mem, left⟩ | ⟨n, mem, right⟩)
    · exact ⟨n, mem, (infix_line (plain n mem).2 a b).2 (.inl left)⟩
    · exact ⟨n, mem, (infix_line (plain n mem).2 a b).2 (.inr right)⟩

theorem hasName_nil (plain : Plain names) : hasName names [] = false := by
  simp only [hasName, List.any_eq_false, decide_eq_true_eq, List.infix_nil]
  exact fun n mem => (plain n mem).1

theorem hasName_line (plain : Plain names) (a : CString) :
    hasName names (a ++ [lf]) = hasName names a := by
  rw [hasName_append plain, hasName_nil plain, Bool.or_false]

/-- A name is in a text if it is in one of its lines. -/
theorem hasName_flatten (plain : Plain names) (lines : Lines ls) :
    hasName names ls.flatten = ls.any (hasName names) := by
  induction ls with
  | nil => exact hasName_nil plain
  | cons l ls ih =>
      obtain ⟨⟨a, clean, rfl | ⟨rfl, some_, rfl⟩⟩, rest⟩ := lines
      · rw [List.flatten_cons, List.append_assoc, List.singleton_append, hasName_append plain,
          List.any_cons, ih rest, hasName_line plain]
      · simp

/-! ## The loop -/

/-- The lines behind the last one with a name. -/
def behind (names : List CString) : List CString → List CString
  | [] => []
  | l :: ls => if (l :: ls).any (hasName names) then behind names ls else l :: ls

theorem behind_suffix (ls : List CString) : behind names ls <:+ ls := by
  induction ls with
  | nil => exact List.suffix_refl _
  | cons l ls ih =>
      unfold behind
      split
      · exact ih.trans (List.suffix_cons l ls)
      · exact List.suffix_refl _

theorem behind_clean : ∀ l ∈ behind names ls, hasName names l = false := by
  induction ls with
  | nil => simp [behind]
  | cons l ls ih =>
      unfold behind
      split
      · exact ih
      next none_ =>
        intro k mem
        by_contra found
        exact none_ (List.any_eq_true.2 ⟨k, mem, by simpa using found⟩)

/-- What the loop leaves out ends with a line that has a name. -/
theorem behind_front (ls : List CString) : ∃ front, ls = front ++ behind names ls ∧
    ∀ l ∈ front.getLast?, hasName names l = true := by
  induction ls with
  | nil => exact ⟨[], rfl, by simp⟩
  | cons l ls ih =>
      unfold behind
      split
      next found =>
        obtain ⟨front, eq, last⟩ := ih
        refine ⟨l :: front, by rw [List.cons_append, ← eq], ?_⟩
        cases front with
        | cons k front => simpa [List.getLast?_cons_cons] using last
        | nil =>
            have all : behind names ls = ls := eq.symm
            rcases List.any_eq_true.1 found with ⟨k, mem, has⟩
            rcases List.mem_cons.1 mem with rfl | mem
            · simpa using has
            · rw [← all] at mem
              rw [behind_clean k mem] at has
              cases has
      next => exact ⟨[], rfl, by simp⟩

theorem behind_append {front back : List CString}
    (last : ∀ l ∈ front.getLast?, hasName names l = true)
    (clean : ∀ l ∈ back, hasName names l = false) : behind names (front ++ back) = back := by
  induction front with
  | nil =>
      cases back with
      | nil => rfl
      | cons l ls =>
          rw [List.nil_append, behind, if_neg]
          intro found
          obtain ⟨k, mem, has⟩ := List.any_eq_true.1 found
          rw [clean k mem] at has
          cases has
  | cons l front ih =>
      have found : (l :: (front ++ back)).any (hasName names) = true := by
        have mem := List.getLast_mem (List.cons_ne_nil l front)
        have has := last _ (List.getLast?_eq_some_getLast (List.cons_ne_nil l front))
        exact List.any_eq_true.2 ⟨_, List.mem_append_left back mem, has⟩
      rw [List.cons_append, behind, if_pos found]
      refine ih fun k mem => last k ?_
      cases front with
      | nil => cases mem
      | cons j front => simpa [List.getLast?_cons_cons] using mem

/-- The lines that are copied, `used` bytes being written before them. -/
def copied (max used : Nat) (ls : List CString) : List CString :=
  if used + ls.flatten.length < max then ls else ls.dropLast

theorem lineLen_line {a : CString} (clean : lf ∉ a) (b : CString) :
    lineLen (a ++ lf :: b) = (a ++ [lf]).length := by
  unfold lineLen
  rw [if_pos (by simp), List.takeWhile_append_of_pos, List.takeWhile_cons_of_neg (by simp)]
  · simp
  · intro c mem
    have ne : c ≠ lf := fun same => clean (by rw [← same]; exact mem)
    simpa using ne

/-- The loop copies what is behind the last line with a name, as far as there is room. -/
theorem patchLoop_eq (plain : Plain names) (lines : Lines ls) {fuel : Nat} {out : CString}
    (enough : ls.flatten.length ≤ fuel)
    (room : out.length + (behind names ls).flatten.length ≤ max) :
    patchLoop names max fuel ls.flatten out =
      out ++ (copied max out.length (behind names ls)).flatten := by
  induction ls generalizing fuel out with
  | nil =>
      have nothing : (copied max out.length (behind names [])).flatten = [] := by
        unfold copied behind
        split <;> rfl
      rw [nothing, List.append_nil]
      cases fuel with
      | zero => rfl
      | succ fuel => rw [patchLoop, if_pos List.flatten_nil]
  | cons l ls ih =>
      have some_ : l ≠ [] := lines.ne_nil List.mem_cons_self
      have found := hasName_flatten plain lines
      have whole : (l :: ls).flatten ≠ [] := by
        rw [List.flatten_cons]
        simp [some_]
      obtain ⟨fuel, rfl⟩ : ∃ n, fuel = n + 1 := by
        refine Nat.exists_eq_succ_of_ne_zero fun zero => whole ?_
        rw [zero] at enough
        exact List.eq_nil_of_length_eq_zero (Nat.le_zero.1 enough)
      rw [patchLoop, if_neg whole]
      dsimp only
      rw [found]
      obtain ⟨⟨a, clean, rfl | ⟨rfl, -, rfl⟩⟩, rest⟩ := lines
      · have text : ((a ++ [lf]) :: ls).flatten = a ++ lf :: ls.flatten := by
          rw [List.flatten_cons, List.append_assoc, List.singleton_append]
        have shorter : ls.flatten.length ≤ fuel := by
          rw [text, List.length_append, List.length_cons] at enough
          omega
        rw [text, lineLen_line clean, if_neg (by simp)]
        have same : a ++ lf :: ls.flatten = (a ++ [lf]) ++ ls.flatten := by simp
        rw [same, List.drop_left, List.take_left]
        unfold behind at room ⊢
        split
        -- `strstr` looks at all that is left: a name in a later line drops this one too
        next has =>
          rw [if_pos has] at room
          exact ih rest shorter room
        next free =>
          rw [if_neg free] at room
          have kept : behind names ls = ls := by
            have none_ : ∀ k ∈ ls, hasName names k = false := by
              intro k mem
              by_contra named
              exact free (List.any_eq_true.2 ⟨k, List.mem_cons_of_mem _ mem, by simpa using named⟩)
            exact @behind_append names [] ls (by simp) none_
          rw [List.flatten_cons, List.length_append] at room
          cases ls with
          | nil =>
              have done : ∀ out, patchLoop names max fuel [] out = out := by
                intro out
                cases fuel with
                | zero => rfl
                | succ fuel => rw [patchLoop, if_pos rfl]
              rw [List.flatten_nil, done]
              unfold copied
              rw [List.flatten_cons, List.flatten_nil, List.append_nil]
              split
              · rw [List.flatten_cons, List.flatten_nil, List.append_nil]
              · simp
          | cons k ls =>
              have more : k ≠ [] := rest.ne_nil List.mem_cons_self
              have pos := List.length_pos_iff.2 more
              rw [if_pos (by simp only [List.flatten_cons, List.length_append] at room ⊢; omega),
                ih rest shorter (by rw [kept, List.length_append]; omega), kept]
              unfold copied
              rw [List.length_append, List.append_assoc]
              congr 1
              simp only [List.flatten_cons, List.length_append, List.dropLast_cons_cons,
                Nat.add_assoc]
              split <;> simp
      · rw [List.flatten_cons, List.flatten_nil, List.append_nil, if_pos clean]
        have len : lineLen l = l.length := by
          unfold lineLen
          rw [if_neg clean]
        rw [len, List.take_length]
        unfold behind copied
        split
        next has =>
          simp [behind]
        next free =>
          rw [List.flatten_cons, List.flatten_nil, List.append_nil]
          split
          · simp
          · simp

/-! ## The content written -/

theorem hasName_mono (sub : ∀ n ∈ names, n ∈ modules) (free : hasName modules l = false) :
    hasName names l = false := by
  simp only [hasName, List.any_eq_false] at free ⊢
  exact fun n mem => free n (sub n mem)

theorem copied_sublist (max used : Nat) (ls : List CString) : (copied max used ls).Sublist ls := by
  unfold copied
  split
  · exact List.Sublist.refl _
  · exact List.dropLast_sublist _

theorem Lines.flatten_eq_nil (lines : Lines ls) : ls.flatten = [] ↔ ls = [] := by
  constructor
  · intro nothing
    rw [← lines.split, nothing]
    rfl
  · rintro rfl
    rfl

theorem copied_short (lines : Lines ls) (pos : 0 < max) (le : ls.flatten.length ≤ max) :
    (copied max 0 ls).flatten.length < max := by
  unfold copied
  split
  next lt => simpa using lt
  next ge =>
    rcases List.eq_nil_or_concat' ls with rfl | ⟨front, l, rfl⟩
    · simpa using pos
    · have some_ := List.length_pos_iff.2 (lines.ne_nil List.mem_concat_self)
      rw [List.dropLast_concat]
      rw [List.flatten_concat, List.length_append] at le
      omega

/-- What is written, as lines. -/
theorem patchLimineConf_eq (plain : Plain names) {content : CString} (some_ : content ≠ [])
    (le : content.length ≤ max) :
    patchLimineConf names max content =
      if copied max 0 (behind names (splitLines content)) = [] then none
      else some (copied max 0 (behind names (splitLines content))).flatten := by
  have lines := lines_splitLines content
  have text := splitLines_flatten content
  have part := (@behind_suffix names (splitLines content)).sublist
  have room : (behind names (splitLines content)).flatten.length ≤ max := by
    obtain ⟨front, eq⟩ := @behind_suffix names (splitLines content)
    have length := congrArg List.length text
    rw [← eq, List.flatten_append, List.length_append] at length
    omega
  have start : ([] : CString).length + (behind names (splitLines content)).flatten.length ≤ max := by
    rwa [List.length_nil, Nat.zero_add]
  have loop := patchLoop_eq plain lines (le_of_eq (congrArg List.length text)) start
  rw [text, List.nil_append] at loop
  have short := copied_short (lines.sublist part)
    (Nat.lt_of_lt_of_le (List.length_pos_iff.2 some_) le) room
  unfold patchLimineConf
  rw [if_neg (by rintro (empty | far); exacts [some_ empty, absurd le (Nat.not_le.2 far)])]
  dsimp only
  rw [loop]
  simp only [List.length_nil,
    ((lines.sublist part).sublist (copied_sublist max 0 _)).flatten_eq_nil, Nat.not_le.2 short,
    or_false]

theorem patchLimineConf_iff (plain : Plain names) (sub : ∀ n ∈ names, n ∈ modules)
    {content : CString} (le : content.length ≤ max) :
    patchLimineConf names max content = some (withoutModules modules content) ↔
      RightFor names modules max content := by
  have lines := lines_splitLines content
  have text := splitLines_flatten content
  by_cases some_ : content = []
  -- an empty file is refused
  · subst some_
    have nothing : patchLimineConf names max [] = none := by
      unfold patchLimineConf
      rw [if_pos (.inl rfl)]
    rw [nothing]
    refine iff_of_false (by simp) ?_
    rintro (⟨front, back, eq, -, -, -, some_, -⟩ | ⟨-, -, front, l, eq, -⟩)
    · exact some_ (List.append_eq_nil_iff.1 eq.symm).2
    · exact absurd (List.append_eq_nil_iff.1 eq.symm).2 (by simp)
  rw [patchLimineConf_eq plain some_ le]
  have part := (@behind_suffix names (splitLines content)).sublist
  have same : (copied max 0 (behind names (splitLines content))).flatten =
      withoutModules modules content ↔
      copied max 0 (behind names (splitLines content)) =
        (splitLines content).filter fun l => !hasName modules l := by
    constructor
    · intro same
      rw [← ((lines.sublist part).sublist (copied_sublist max 0 _)).split, same]
      exact (lines.sublist List.filter_sublist).split
    · exact congrArg List.flatten
  have written : (if copied max 0 (behind names (splitLines content)) = [] then none
      else some (copied max 0 (behind names (splitLines content))).flatten) =
        some (withoutModules modules content) ↔
      copied max 0 (behind names (splitLines content)) ≠ [] ∧
        copied max 0 (behind names (splitLines content)) =
          (splitLines content).filter fun l => !hasName modules l := by
    split
    next none_ => simp [none_]
    next more => rw [Option.some.injEq, same, and_iff_right more]
  rw [written]
  obtain ⟨front, eq, last⟩ := @behind_front names (splitLines content)
  constructor
  · rintro ⟨more, kept⟩
    by_cases lt : (behind names (splitLines content)).flatten.length < max
    · left
      have whole : copied max 0 (behind names (splitLines content)) =
          behind names (splitLines content) := if_pos (by simpa using lt)
      rw [whole] at more kept
      have free : ∀ l ∈ behind names (splitLines content), hasName modules l = false := by
        intro l mem
        rw [kept] at mem
        simpa using (List.mem_filter.1 mem).2
      refine ⟨front, _, eq, fun l mem => ?_, last, free, more, lt⟩
      have split_ := kept
      conv_rhs at split_ => rw [eq]
      have self : ((behind names (splitLines content)).filter fun l => !hasName modules l) =
          behind names (splitLines content) :=
        List.filter_eq_self.2 fun k mem => by simp [free k mem]
      rw [List.filter_append, self, List.self_eq_append_left] at split_
      have named := List.filter_eq_nil_iff.1 split_ l mem
      simpa using named
    · right
      have length : (splitLines content).flatten.length =
          front.flatten.length + (behind names (splitLines content)).flatten.length := by
        conv_lhs => rw [eq]
        rw [List.flatten_append, List.length_append]
      rw [text] at length
      have none_front : front = [] := by
        have front_lines : Lines front := by
          refine lines.sublist ?_
          rw [eq]
          exact List.sublist_append_left ..
        exact front_lines.flatten_eq_nil.1 (List.eq_nil_of_length_eq_zero (by omega))
      rw [none_front, List.nil_append] at eq
      have cut : copied max 0 (behind names (splitLines content)) =
          (behind names (splitLines content)).dropLast := if_neg (by simpa using lt)
      rw [cut, ← eq] at more kept
      obtain ⟨front, l, concat⟩ := (List.eq_nil_or_concat' (splitLines content)).resolve_left
        fun none_ => more (by rw [none_]; rfl)
      rw [concat, List.dropLast_concat] at more kept
      refine ⟨by rw [none_front, List.flatten_nil, List.length_nil] at length; omega, ?_, front, l,
        concat, more, ?_,
        fun k mem => ?_⟩
      · rw [← text, hasName_flatten plain lines, eq, List.any_eq_false]
        intro k mem
        simp [behind_clean k mem]
      · by_contra free
        rw [List.filter_append, List.filter_cons_of_pos (by simpa using free), List.filter_nil] at kept
        have short := congrArg List.length kept
        rw [List.length_append, List.length_singleton] at short
        have fewer := List.length_filter_le (fun l => !hasName modules l) front
        have all : (front.filter fun l => !hasName modules l).length + 1 = front.length := short.symm
        rw [List.filter_eq_self.2] at all
        · omega
        · intro k mem
          rw [kept] at mem
          rcases List.mem_append.1 mem with mem | mem
          · exact (List.mem_filter.1 mem).2
          · rw [List.mem_singleton.1 mem]
            simpa using free
      · rw [kept] at mem
        simpa using (List.mem_filter.1 mem).2
  · rintro (⟨front, back, eq, named, last, free, more, lt⟩ |
      ⟨full, unnamed, front, l, eq, more, named, free⟩)
    · have tail : behind names (splitLines content) = back := by
        rw [eq]
        exact behind_append last fun l mem => hasName_mono sub (free l mem)
      have whole : copied max 0 back = back := if_pos (by simpa using lt)
      rw [tail, whole, eq, List.filter_append, List.filter_eq_nil_iff.2 fun l mem => by
        simp [named l mem], List.nil_append, List.filter_eq_self.2 fun l mem => by simp [free l mem]]
      exact ⟨more, rfl⟩
    · have all : behind names (splitLines content) = splitLines content := by
        refine @behind_append names [] _ (by simp) fun k mem => ?_
        rw [← text, hasName_flatten plain lines, List.any_eq_false] at unnamed
        simpa using unnamed k mem
      have cut : copied max 0 (splitLines content) = (splitLines content).dropLast :=
        if_neg (by rw [text, full]; simp)
      rw [all, cut, eq, List.dropLast_concat, List.filter_append,
        List.filter_cons_of_neg (by simp [named]), List.filter_nil, List.append_nil,
        List.filter_eq_self.2 fun l mem => by
          simp [free l mem]]
      exact ⟨more, rfl⟩

/-- For each installer and every content within its limit: what is written is the content
without the lines of the installer's modules exactly for the contents that this is right for. -/
theorem patch_limine_conf_iff (content : CString) :
    (content.length ≤ insFileMax →
      (patchLimineConfTerm content = some (withoutModules installerModules content) ↔
        RightFor [ascii "installer.elf", ascii "installer_term.elf", ascii "INSTALLER_TERM.ELF"]
          installerModules insFileMax content)) ∧
      (content.length ≤ 512 * 1024 * 1024 →
        (patchLimineConfGraphical content = some (withoutModules installerModules content) ↔
          RightFor [ascii "installer.elf", ascii "installer_term.elf"] installerModules
            (512 * 1024 * 1024) content)) :=
  ⟨patchLimineConf_iff (by unfold Plain; decide) (by decide),
    patchLimineConf_iff (by unfold Plain; decide) (by decide)⟩

set_option maxRecDepth 8192 in
/-- The line before the one with the module is lost. -/
theorem line_before_lost : ¬ ∀ content : CString, (∀ c ∈ content, c ≠ 0) →
    content.length ≤ insFileMax →
    patchLimineConfTerm content = some (withoutModules installerModules content) := by
  intro exact_
  have written := exact_ (ascii "a\ninstaller.elf\nb\n") (by decide) (by decide)
  have lost : patchLimineConfTerm (ascii "a\ninstaller.elf\nb\n") = some (ascii "b\n") := by
    decide +kernel
  rw [lost] at written
  exact absurd written (by decide)

end NTux.Install
