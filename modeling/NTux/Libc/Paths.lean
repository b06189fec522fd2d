import NTux.Fs.PathComponents

/-!
# Normal paths

`normalize_path` of `libc/unistd.c`.  It builds its result in the buffer of the caller: a
segment is put behind a slash, and `..` takes the last segment off and leaves the slash in
front of it where it is.  So the result ends in a slash if nothing is put there again.

* `canonical` — the path that the segments lead to.
* `Normalizes` — what is expected of the function for a path and a capacity.
* `normalize_path_iff` — it holds exactly if the path does not fit or does not end in a `..`
  below the root.
-/

namespace NTux.Libc

open NTux.Fs

def dot : UInt8 := 46

/-! ## The code -/

/-- `push_segment`, with the part of the buffer that is in use. -/
def pushSegment (cap : Nat) (out seg : CString) : Option CString :=
  if seg = [] then some out
  else do
    let out ←
      if 1 < out.length ∧ out.getLast? ≠ some slash then
        if cap ≤ out.length + 1 then none else some (out ++ [slash])
      else some out
    let out ←
      if out.length = 0 then if cap < 2 then none else some (out ++ [slash])
      else some out
    if cap ≤ out.length + seg.length then none else some (out ++ seg)

/-- What `..` does to the buffer. -/
def popSegment (out : CString) : CString :=
  if 1 < out.length then
    let out := out.dropLast.rdropWhile (· != slash)
    if out = [] then [slash] else out
  else out

/-- The loop of `normalize_path`; a turn takes a character at least. -/
def normalizeLoop (cap : Nat) : Nat → CString → CString → Option CString
  | 0, out, _ => some out
  | fuel + 1, out, p =>
      let p := p.dropWhile (· == slash)
      let seg := p.takeWhile (· != slash)
      let rest := p.dropWhile (· != slash)
      if seg = [] then some out
      else if seg = [dot] then normalizeLoop cap fuel out rest
      else if seg = [dot, dot] then normalizeLoop cap fuel (popSegment out) rest
      else (pushSegment cap out seg).bind fun out => normalizeLoop cap fuel out rest

/-- `normalize_path`. -/
def normalizePath (cap : Nat) (path : CString) : Option CString :=
  if cap = 0 then none
  else (normalizeLoop cap path.length [] path).bind fun out =>
    if out.length = 0 then if cap < 2 then none else some [slash] else some out

/-! ## Paths -/

/-- A segment that is a name. -/
def IsName (seg : CString) : Prop := seg ≠ [] ∧ slash ∉ seg ∧ seg ≠ [dot] ∧ seg ≠ [dot, dot]

/-- The names that a segment leaves of those before it. -/
def follow (names : List CString) (seg : CString) : List CString :=
  if seg = [dot] then names else if seg = [dot, dot] then names.dropLast else names ++ [seg]

/-- The names that a path leads to. -/
def names (path : CString) : List CString := (components path).foldl follow []

/-- Names with a slash before each. -/
def below (ns : List CString) : CString := ns.flatMap (slash :: ·)

/-- The absolute path of names. -/
def absolute (ns : List CString) : CString := if ns = [] then [slash] else below ns

/-- The canonical form of a path. -/
def canonical (path : CString) : CString := absolute (names path)

/-- The root, or names with a slash before each: no segment is empty, `.` or `..`, and no
slash is at the end. -/
def IsCanonical (path : CString) : Prop :=
  ∃ ns : List CString, (∀ n ∈ ns, IsName n) ∧ path = absolute ns

/-- What is expected of the result of `normalize_path`. -/
structure Normalized (cap : Nat) (path out : CString) : Prop where
  folded : out = canonical path
  shape : IsCanonical out
  fixed : normalizePath cap out = some out
  join : ∀ q, normalizePath cap (path ++ slash :: q) = normalizePath cap (out ++ slash :: q)

/-- `normalize_path` does what is expected if it succeeds. -/
def Normalizes (cap : Nat) (path : CString) : Prop :=
  ∀ out, normalizePath cap path = some out → Normalized cap path out

/-- The buffer has room for the canonical form of every part of the path from its beginning. -/
def Fits (cap : Nat) (path : CString) : Prop :=
  ∀ segs, segs <+: components path → (absolute (segs.foldl follow [])).length < cap

/-- The last segment other than `.` is a `..`, and it does not lead to the root. -/
def EndsBelowRoot (path : CString) : Prop :=
  ((components path).filter (· ≠ [dot])).getLast? = some [dot, dot] ∧ names path ≠ []

/-! ## The segments -/

/-- A segment is handled: the body of the loop. -/
def putSegment (cap : Nat) (out seg : CString) : Option CString :=
  if seg = [dot] then some out
  else if seg = [dot, dot] then some (popSegment out)
  else pushSegment cap out seg

/-- The loop handles the components of the path one by one. -/
theorem normalizeLoop_eq (cap : Nat) {fuel : Nat} {p : CString} (enough : p.length ≤ fuel)
    (out : CString) : normalizeLoop cap fuel out p = (components p).foldlM (putSegment cap) out := by
  induction fuel generalizing p out with
  | zero =>
      obtain rfl := List.length_eq_zero_iff.mp (Nat.le_zero.mp enough)
      rfl
  | succ fuel ih =>
      rw [normalizeLoop]
      rcases components_cases p with ⟨skipped, none⟩ | ⟨w, r, skipped, ne, split, less, word, rest⟩
      · simp [skipped, none]
      · have turn := fun out => ih (p := r) (by omega) out
        rw [split, List.foldlM_cons, putSegment]
        simp only [skipped, word, rest, if_neg ne, turn]
        split_ifs <;> rfl

theorem components_name {path n : CString} (mem : n ∈ components path) : n ≠ [] ∧ slash ∉ n := by
  rw [components, List.mem_filter] at mem
  exact ⟨by simpa using mem.2, Lib.Fields.notMem_of_mem_pieces mem.1⟩

theorem components_append (p q : CString) :
    components (p ++ slash :: q) = components p ++ components q := by
  induction len : p.length using Nat.strong_induction_on generalizing p with
  | _ n ih =>
      rcases components_cases p with ⟨skipped, none⟩ | ⟨w, r, skipped, ne, split, less, word, rest⟩
      · have drop : (p ++ slash :: q).dropWhile (· == slash) = q.dropWhile (· == slash) := by
          rw [List.dropWhile_append, skipped]
          simp
        rw [none, List.nil_append, ← components_dropWhile, drop, components_dropWhile]
      · have some : w ++ r ≠ [] := by simp [ne]
        have drop : (p ++ slash :: q).dropWhile (· == slash) = w ++ (r ++ slash :: q) := by
          rw [List.dropWhile_append, skipped, if_neg (by simpa using some), List.append_assoc]
        have clean : slash ∉ w := by
          intro mem
          rw [← word] at mem
          exact absurd (List.all_eq_true.mp List.all_takeWhile _ mem) (by simp)
        have head : ∀ c, (r ++ slash :: q).head? = Option.some c → c = slash := by
          intro c first
          have stop := List.head?_dropWhile_not (· != slash) (w ++ r)
          rw [rest] at stop
          cases r with
          | nil => simpa using first.symm
          | cons d r =>
              simp only [List.cons_append, List.head?_cons, Option.some.injEq] at first stop
              subst first
              simpa using stop
        rw [← components_dropWhile, drop, components_of_word clean ne head,
          ih r.length (by omega) r rfl, split, List.cons_append]

theorem components_below {ns : List CString} (valid : ∀ n ∈ ns, n ≠ [] ∧ slash ∉ n) :
    components (below ns) = ns := by
  induction ns with
  | nil => rfl
  | cons n ns ih =>
      obtain ⟨ne, clean⟩ := valid n List.mem_cons_self
      have head : ∀ c, (below ns).head? = some c → c = slash := by
        intro c first
        cases ns with
        | nil => cases first
        | cons m ns => simpa [below] using first.symm
      have text : below (n :: ns) = slash :: (n ++ below ns) := by simp [below]
      rw [text, components_slash, components_of_word clean ne head,
        ih fun m mem => valid m (List.mem_cons_of_mem _ mem)]

theorem components_absolute {ns : List CString} (valid : ∀ n ∈ ns, n ≠ [] ∧ slash ∉ n) :
    components (absolute ns) = ns := by
  rw [absolute]
  split_ifs with empty
  · rw [empty]
    rfl
  · exact components_below valid

/-! ## The buffer -/

/-- What the buffer stands for: names, and whether a slash is left behind them. -/
structure Folded where
  names : List CString
  slashed : Bool
  deriving DecidableEq

/-- What a segment makes of it. -/
def Folded.step (x : Folded) (seg : CString) : Folded :=
  if seg = [dot] then x
  else if seg = [dot, dot] then ⟨x.names.dropLast, 1 < x.names.length⟩
  else ⟨x.names ++ [seg], false⟩

/-- What the buffer stands for behind some segments. -/
def folded (segs : List CString) : Folded := segs.foldl Folded.step ⟨[], false⟩

/-- The text of the buffer in the end. -/
def Folded.text (x : Folded) : CString :=
  absolute x.names ++ if x.slashed then [slash] else []

/-- No slash is left at the root. -/
def Folded.Proper (x : Folded) : Prop :=
  (∀ n ∈ x.names, n ≠ [] ∧ slash ∉ n) ∧ (x.slashed = true → x.names ≠ [])

/-- The buffer stands for `x`; before the first name it may be empty. -/
def Holds (out : CString) (x : Folded) : Prop := out = x.text ∨ (out = [] ∧ x = ⟨[], false⟩)

@[simp] theorem Folded.step_names (x : Folded) (seg : CString) :
    (x.step seg).names = follow x.names seg := by
  unfold Folded.step follow
  split_ifs <;> rfl

theorem folded_names (segs : List CString) : (folded segs).names = segs.foldl follow [] := by
  have general : ∀ x : Folded, (segs.foldl Folded.step x).names = segs.foldl follow x.names := by
    induction segs with
    | nil => exact fun x => rfl
    | cons seg segs ih =>
        intro x
        rw [List.foldl_cons, List.foldl_cons, ih, Folded.step_names]
  exact general _

theorem Folded.Proper.step {x : Folded} (proper : x.Proper) {seg : CString}
    (valid : seg ≠ [] ∧ slash ∉ seg) : (x.step seg).Proper := by
  unfold Folded.step
  split_ifs with same up
  · exact proper
  · refine ⟨fun n mem => proper.1 n (List.dropLast_subset _ mem), fun slashed => ?_⟩
    have two : 1 < x.names.length := by simpa using slashed
    intro empty
    have length := congrArg List.length empty
    simp only [List.length_dropLast, List.length_nil] at length
    omega
  · refine ⟨fun n mem => ?_, by simp⟩
    rcases List.mem_append.mp mem with mem | mem
    · exact proper.1 n mem
    · rw [List.mem_singleton.mp mem]
      exact valid

theorem folded_concat (segs : List CString) (seg : CString) :
    folded (segs ++ [seg]) = (folded segs).step seg := by simp [folded]

theorem folded_proper {segs : List CString} (valid : ∀ s ∈ segs, s ≠ [] ∧ slash ∉ s) :
    (folded segs).Proper := by
  induction segs using List.reverseRecOn with
  | nil => exact ⟨by simp [folded], by simp [folded]⟩
  | append_singleton segs seg ih =>
      rw [folded_concat]
      exact (ih fun s mem => valid s (by simp [mem])).step (valid seg (by simp))

theorem below_append (ns : List CString) (n : CString) :
    below (ns ++ [n]) = below ns ++ slash :: n := by
  simp [below]

theorem below_getLast {ns : List CString} (valid : ∀ n ∈ ns, n ≠ [] ∧ slash ∉ n) :
    (below ns).getLast? ≠ some slash := by
  induction ns using List.reverseRecOn with
  | nil => simp [below]
  | append_singleton ns n _ =>
      obtain ⟨ne, clean⟩ := valid n (by simp)
      have shape : below (ns ++ [n]) = (below ns ++ [slash]) ++ n := by simp [below]
      rw [shape, List.getLast?_append_of_ne_nil _ ne]
      exact fun last => clean (List.mem_of_getLast? last)

theorem pushSegment_behind {out seg : CString} (cap : Nat) (some : 1 < out.length)
    (last : out.getLast? ≠ Option.some slash) (ne : seg ≠ []) :
    pushSegment cap out seg =
      if (out ++ slash :: seg).length < cap then Option.some (out ++ slash :: seg) else none := by
  have pos : 0 < seg.length := List.length_pos_of_ne_nil ne
  simp only [pushSegment, if_neg ne, if_pos (And.intro some last), List.length_append,
    List.length_cons]
  by_cases room : cap ≤ out.length + 1
  · rw [if_pos room, if_neg (by omega)]
    rfl
  · rw [if_neg room]
    simp only [Option.bind_eq_bind, Option.bind_some, List.length_append, List.length_cons,
      List.length_nil]
    rw [if_neg (by omega), List.append_assoc, List.singleton_append]
    by_cases fits : out.length + (seg.length + 1) < cap
    · rw [if_pos fits, if_neg (by simp; omega)]
    · rw [if_neg fits, if_pos (by simp; omega)]

theorem pushSegment_slashed {out seg : CString} (cap : Nat) (last : out.getLast? = some slash)
    (ne : seg ≠ []) :
    pushSegment cap out seg = if (out ++ seg).length < cap then some (out ++ seg) else none := by
  have pos : 0 < out.length := by
    cases out with
    | nil => cases last
    | cons c out => simp
  have plain : ¬(1 < out.length ∧ out.getLast? ≠ some slash) := fun h => h.2 last
  simp only [pushSegment, if_neg ne, if_neg plain, Option.bind_eq_bind, Option.bind_some]
  rw [if_neg (by omega), List.length_append]
  by_cases fits : out.length + seg.length < cap
  · rw [if_pos fits, if_neg (by omega)]
  · rw [if_neg fits, if_pos (by omega)]

theorem pushSegment_empty {seg : CString} (cap : Nat) (ne : seg ≠ []) :
    pushSegment cap [] seg =
      if (slash :: seg).length < cap then some (slash :: seg) else none := by
  have pos : 0 < seg.length := List.length_pos_of_ne_nil ne
  simp only [pushSegment, if_neg ne, List.length_nil, List.length_cons]
  by_cases room : cap < 2
  · simp [room]
    omega
  · simp [room]
    split_ifs <;> first | rfl | omega

/-- A segment is put behind the names if there is room for the names with it. -/
theorem pushSegment_eq (cap : Nat) {out seg : CString} {x : Folded} (holds : Holds out x)
    (proper : x.Proper) (ne : seg ≠ []) :
    pushSegment cap out seg =
      if (below (x.names ++ [seg])).length < cap then some (below (x.names ++ [seg])) else none := by
  obtain ⟨ns, slashed⟩ := x
  rw [below_append]
  rcases holds with rfl | ⟨rfl, eq⟩
  · by_cases root : ns = []
    · subst root
      have plain : slashed = false := Bool.eq_false_iff.mpr fun h => proper.2 h rfl
      subst plain
      exact pushSegment_slashed cap rfl ne
    · have some : 1 < (below ns).length := by
        obtain ⟨n, rest, rfl⟩ := List.exists_cons_of_ne_nil root
        have pos := List.length_pos_of_ne_nil (proper.1 n List.mem_cons_self).1
        simp only [below, List.flatMap_cons, List.length_append, List.length_cons]
        omega
      cases slashed with
      | false =>
          have text : (Folded.mk ns false).text = below ns := by
            simp [Folded.text, absolute, root]
          rw [text, pushSegment_behind cap some (below_getLast proper.1) ne]
      | true =>
          have text : (Folded.mk ns true).text = below ns ++ [slash] := by
            simp [Folded.text, absolute, root]
          rw [text, pushSegment_slashed cap List.getLast?_concat ne, List.append_assoc,
            List.singleton_append]
  · cases eq
    exact pushSegment_empty cap ne

/-- Behind the last slash is a name. -/
theorem rdropWhile_name (base : CString) {n : CString} (clean : slash ∉ n) :
    (base ++ slash :: n).rdropWhile (· != slash) = base ++ [slash] := by
  induction n using List.reverseRecOn with
  | nil => exact List.rdropWhile_concat_neg _ _ _ (by simp)
  | append_singleton n c ih =>
      simp only [List.mem_append, List.mem_singleton, not_or] at clean
      rw [← List.cons_append, ← List.append_assoc,
        List.rdropWhile_concat_pos _ _ _ (by simpa using Ne.symm clean.2), ih clean.1]

theorem popSegment_name (base : CString) {body : CString} (c : UInt8)
    (clean : slash ∉ body) : popSegment (base ++ slash :: body ++ [c]) = base ++ [slash] := by
  have long : 1 < (base ++ slash :: body ++ [c]).length := by
    simp only [List.length_append, List.length_cons]
    omega
  simp only [popSegment, if_pos long, List.dropLast_concat, rdropWhile_name base clean]
  simp

/-- `..` takes a name off and leaves the slash before it. -/
theorem popSegment_holds {out : CString} {x : Folded} (holds : Holds out x) (proper : x.Proper) :
    Holds (popSegment out) ⟨x.names.dropLast, 1 < x.names.length⟩ := by
  obtain ⟨ns, slashed⟩ := x
  rcases holds with rfl | ⟨rfl, eq⟩
  · rcases List.eq_nil_or_concat ns with rfl | ⟨ns, n, rfl⟩
    · have plain : slashed = false := Bool.eq_false_iff.mpr fun h => proper.2 h rfl
      subst plain
      exact .inl rfl
    · rw [List.concat_eq_append] at proper ⊢
      obtain ⟨ne, clean⟩ := proper.1 n (by simp)
      have popped : popSegment (Folded.mk (ns ++ [n]) slashed).text = below ns ++ [slash] := by
        have text : (Folded.mk (ns ++ [n]) slashed).text =
            below ns ++ slash :: n ++ if slashed then [slash] else [] := by
          simp [Folded.text, absolute, below_append]
        rw [text]
        cases slashed with
        | false =>
            obtain ⟨body, c, rfl⟩ := (List.eq_nil_or_concat n).resolve_left ne
            rw [List.concat_eq_append] at clean ⊢
            simp only [List.mem_append, not_or] at clean
            simpa using popSegment_name (below ns) c clean.1
        | true => exact popSegment_name (below ns) slash clean
      left
      rw [popped]
      by_cases root : ns = []
      · simp [root, Folded.text, absolute, below]
      · have some : 0 < ns.length := List.length_pos_of_ne_nil root
        simp [root, Folded.text, absolute, some]
  · cases eq
    exact .inr ⟨rfl, rfl⟩

/-- A segment is handled if there is room for the path that it leads to. -/
theorem putSegment_eq (cap : Nat) {out seg : CString} {x : Folded} (holds : Holds out x)
    (proper : x.Proper) (ne : seg ≠ []) :
    (∃ out', putSegment cap out seg = some out' ∧ Holds out' (x.step seg) ∧
      (seg = [dot] ∨ seg = [dot, dot] ∨ (below (x.names ++ [seg])).length < cap)) ∨
    (putSegment cap out seg = none ∧ seg ≠ [dot] ∧ seg ≠ [dot, dot] ∧
      cap ≤ (below (x.names ++ [seg])).length) := by
  by_cases same : seg = [dot]
  · refine .inl ⟨out, by simp [putSegment, same], ?_, .inl same⟩
    simpa [Folded.step, same] using holds
  · by_cases up : seg = [dot, dot]
    · refine .inl ⟨popSegment out, by simp [putSegment, up], ?_, .inr (.inl up)⟩
      simpa [Folded.step, up] using popSegment_holds holds proper
    · have pushed := pushSegment_eq cap holds proper ne
      have put : putSegment cap out seg = pushSegment cap out seg := by
        rw [putSegment, if_neg same, if_neg up]
      rw [put, pushed]
      by_cases room : (below (x.names ++ [seg])).length < cap
      · rw [if_pos room]
        refine .inl ⟨_, rfl, .inl ?_, .inr (.inr room)⟩
        simp [Folded.step, same, up, Folded.text, absolute]
      · rw [if_neg room]
        exact .inr ⟨rfl, same, up, by omega⟩

/-! ## Whole paths -/

/-- There is room for what every part of the segments leads to. -/
def FitsSegs (cap : Nat) (segs : List CString) : Prop :=
  ∀ part, part <+: segs → (absolute (part.foldl follow [])).length < cap

theorem fits_iff (cap : Nat) (path : CString) : Fits cap path ↔ FitsSegs cap (components path) :=
  Iff.rfl

theorem fitsSegs_concat (cap : Nat) (segs : List CString) (seg : CString) :
    FitsSegs cap (segs ++ [seg]) ↔
      FitsSegs cap segs ∧ (absolute (follow (segs.foldl follow []) seg)).length < cap := by
  constructor
  · intro fits
    refine ⟨fun part pre => fits part (pre.trans (List.prefix_append _ _)), ?_⟩
    simpa using fits _ (List.prefix_rfl)
  · rintro ⟨before, last⟩ part pre
    rcases List.prefix_concat_iff.mp pre with rfl | pre
    · simpa using last
    · exact before part pre

theorem absolute_dropLast (ns : List CString) :
    (absolute ns.dropLast).length ≤ (absolute ns).length := by
  rcases List.eq_nil_or_concat ns with rfl | ⟨ns, n, rfl⟩
  · rfl
  · rw [List.concat_eq_append, List.dropLast_concat]
    by_cases root : ns = []
    · simp [absolute, root, below]
    · simp only [absolute, root, below_append, List.append_eq_nil_iff, List.cons_ne_self, if_false,
        List.length_append, false_and]
      omega

/-- The loop ends if everything fits, and fails if not. -/
theorem foldlM_putSegment {cap : Nat} (two : 2 ≤ cap) {segs : List CString}
    (valid : ∀ s ∈ segs, s ≠ [] ∧ slash ∉ s) :
    (FitsSegs cap segs ∧ ∃ out, segs.foldlM (putSegment cap) [] = some out ∧
      Holds out (folded segs)) ∨
    (¬FitsSegs cap segs ∧ segs.foldlM (putSegment cap) [] = none) := by
  induction segs using List.reverseRecOn with
  | nil =>
      refine .inl ⟨fun part pre => ?_, [], rfl, .inr ⟨rfl, rfl⟩⟩
      rw [List.prefix_nil.mp pre]
      exact two
  | append_singleton segs seg ih =>
      have before : ∀ s ∈ segs, s ≠ [] ∧ slash ∉ s := fun s mem => valid s (by simp [mem])
      have here := valid seg (by simp)
      rw [fitsSegs_concat, List.foldlM_append, folded_concat]
      rcases ih before with ⟨fits, out, eq, holds⟩ | ⟨full, eq⟩
      · have room := fits segs List.prefix_rfl
        rw [← folded_names] at room ⊢
        rw [eq, Option.bind_eq_bind, Option.bind_some, List.foldlM_cons]
        rcases putSegment_eq cap holds (folded_proper before) here.1 with
          ⟨out', put, after, why⟩ | ⟨put, same, up, full⟩
        · refine .inl ⟨⟨fits, ?_⟩, out', by simp [put], after⟩
          rcases why with rfl | rfl | short
          · simpa [follow] using room
          · exact Nat.lt_of_le_of_lt (by simpa [follow] using absolute_dropLast _) room
          · unfold follow
            split_ifs with same up
            · exact room
            · exact Nat.lt_of_le_of_lt (absolute_dropLast _) room
            · simpa [absolute] using short
        · refine .inr ⟨fun fits => ?_, by simp [put]⟩
          have short := fits.2
          simp only [follow, if_neg same, if_neg up, absolute, List.append_eq_nil_iff,
            List.cons_ne_self, and_false, if_false] at short
          omega
      · exact .inr ⟨fun fits => full fits.1, by rw [eq]; rfl⟩

/-- With less than two bytes nothing is ever put in the buffer. -/
theorem foldlM_putSegment_small {cap : Nat} (small : cap < 2) {segs : List CString} {out : CString}
    (valid : ∀ s ∈ segs, s ≠ [] ∧ slash ∉ s)
    (eq : segs.foldlM (putSegment cap) [] = some out) : out = [] := by
  induction segs using List.reverseRecOn generalizing out with
  | nil => exact (Option.some.inj eq).symm
  | append_singleton segs seg ih =>
      rw [List.foldlM_append, Option.bind_eq_bind, Option.bind_eq_some_iff] at eq
      obtain ⟨out', before, last⟩ := eq
      obtain rfl := ih (fun s mem => valid s (by simp [mem])) before
      have pos := List.length_pos_of_ne_nil (valid seg (by simp)).1
      simp only [List.foldlM_cons, List.foldlM_nil, putSegment] at last
      split_ifs at last with same up
      · exact (Option.some.inj last).symm
      · exact (Option.some.inj last).symm
      · rw [pushSegment_empty cap (valid seg (by simp)).1, if_neg (by simp; omega)] at last
        cases last

theorem absolute_pos (ns : List CString) : 0 < (absolute ns).length := by
  cases ns <;> simp [absolute, below]

/-- If everything fits, `normalize_path` returns what the buffer stands for. -/
theorem normalizePath_of_fits {cap : Nat} {path : CString} (fits : Fits cap path) :
    normalizePath cap path = some (folded (components path)).text := by
  have valid : ∀ s ∈ components path, s ≠ [] ∧ slash ∉ s := fun s mem => components_name mem
  have two : 2 ≤ cap := fits [] List.nil_prefix
  rw [normalizePath, normalizeLoop_eq cap (Nat.le_refl _), if_neg (by omega)]
  rcases foldlM_putSegment two valid with ⟨-, out, eq, holds⟩ | ⟨full, -⟩
  · rw [eq, Option.bind_some]
    rcases holds with rfl | ⟨rfl, start⟩
    · have pos := absolute_pos (folded (components path)).names
      rw [if_neg]
      simp only [Folded.text, List.length_append]
      omega
    · rw [start, List.length_nil, if_pos rfl, if_neg (by omega)]
      rfl
  · exact absurd fits full

/-- If something does not fit, `normalize_path` fails. -/
theorem normalizePath_of_full {cap : Nat} {path : CString} (full : ¬Fits cap path) :
    normalizePath cap path = none := by
  have valid : ∀ s ∈ components path, s ≠ [] ∧ slash ∉ s := fun s mem => components_name mem
  rw [normalizePath, normalizeLoop_eq cap (Nat.le_refl _)]
  by_cases zero : cap = 0
  · rw [if_pos zero]
  · rw [if_neg zero]
    by_cases two : 2 ≤ cap
    · rcases foldlM_putSegment two valid with ⟨fits, -⟩ | ⟨-, eq⟩
      · exact absurd fits full
      · rw [eq]
        rfl
    · cases eq : (components path).foldlM (putSegment cap) [] with
      | none => rfl
      | some out =>
          rw [foldlM_putSegment_small (by omega) valid eq, Option.bind_some, List.length_nil,
            if_pos rfl, if_pos (by omega)]

theorem fits_of_normalizePath {cap : Nat} {path out : CString}
    (eq : normalizePath cap path = some out) :
    Fits cap path ∧ out = (folded (components path)).text := by
  by_cases fits : Fits cap path
  · rw [normalizePath_of_fits fits] at eq
    exact ⟨fits, (Option.some.inj eq).symm⟩
  · rw [normalizePath_of_full fits] at eq
    cases eq

/-- A slash is left behind the names exactly if the last segment other than `.` is a `..`
below the root. -/
theorem folded_slashed (segs : List CString) :
    (folded segs).slashed = true ↔
      (segs.filter (· ≠ [dot])).getLast? = some [dot, dot] ∧ segs.foldl follow [] ≠ [] := by
  rw [← folded_names]
  induction segs using List.reverseRecOn with
  | nil => simp [folded]
  | append_singleton segs seg ih =>
      rw [folded_concat, Folded.step, List.filter_append]
      by_cases same : seg = [dot]
      · rw [if_pos same, ih]
        simp [same]
      · have keep : [seg].filter (· ≠ [dot]) = [seg] := by simp [same]
        rw [if_neg same, keep, List.getLast?_concat]
        by_cases up : seg = [dot, dot]
        · rw [if_pos up, up]
          simp only [decide_eq_true_eq, true_and, ne_eq]
          rw [← List.length_eq_zero_iff, List.length_dropLast]
          omega
        · simp [up]

theorem names_eq (path : CString) : names path = (folded (components path)).names :=
  (folded_names _).symm

/-- Every name that a path leads to is one. -/
theorem names_isName (path : CString) : ∀ n ∈ names path, IsName n := by
  have valid : ∀ s ∈ components path, s ≠ [] ∧ slash ∉ s := fun s mem => components_name mem
  unfold names
  generalize components path = segs at valid
  induction segs using List.reverseRecOn with
  | nil => simp
  | append_singleton segs seg ih =>
      have before := ih fun s mem => valid s (by simp [mem])
      have here := valid seg (by simp)
      rw [List.foldl_append, List.foldl_cons, List.foldl_nil, follow]
      split_ifs with same up
      · exact before
      · exact fun n mem => before n (List.dropLast_subset _ mem)
      · intro n mem
        rcases List.mem_append.mp mem with mem | mem
        · exact before n mem
        · rw [List.mem_singleton.mp mem]
          exact ⟨here.1, here.2, same, up⟩

/-- Names are put behind one another. -/
theorem foldl_step_names {ns : List CString} (named : ∀ n ∈ ns, IsName n) (x : Folded)
    (plain : x.slashed = false) : ns.foldl Folded.step x = ⟨x.names ++ ns, false⟩ := by
  induction ns generalizing x with
  | nil => simp [← plain]
  | cons n ns ih =>
      have here := named n List.mem_cons_self
      rw [List.foldl_cons, Folded.step, if_neg here.2.2.1, if_neg here.2.2.2,
        ih (fun m mem => named m (List.mem_cons_of_mem _ mem)) _ rfl, List.append_assoc,
        List.singleton_append]

theorem folded_of_names {ns : List CString} (named : ∀ n ∈ ns, IsName n) :
    folded ns = ⟨ns, false⟩ := by
  rw [folded, foldl_step_names named _ rfl, List.nil_append]

theorem absolute_mono {part ns : List CString} (pre : part <+: ns) :
    (absolute part).length ≤ (absolute ns).length := by
  obtain ⟨rest, rfl⟩ := pre
  cases part with
  | nil => exact absolute_pos _
  | cons n part => simp [absolute, below]

theorem fitsSegs_names {cap : Nat} {ns : List CString} (named : ∀ n ∈ ns, IsName n)
    (room : (absolute ns).length < cap) : FitsSegs cap ns := by
  intro part pre
  have eq := folded_names part
  rw [folded_of_names fun n mem => named n (pre.subset mem)] at eq
  rw [← eq]
  exact Nat.lt_of_le_of_lt (absolute_mono pre) room

/-- What follows a path follows the names that it leads to. -/
theorem fitsSegs_append {cap : Nat} {segs segs' rest : List CString} (fits : FitsSegs cap segs)
    (same : segs.foldl follow [] = segs'.foldl follow []) (all : FitsSegs cap (segs' ++ rest)) :
    FitsSegs cap (segs ++ rest) := by
  intro part pre
  rcases List.prefix_or_prefix_of_prefix pre (List.prefix_append segs rest) with inside | ⟨part, rfl⟩
  · exact fits part inside
  · have room := all (segs' ++ part)
      ((List.prefix_append_right_inj _).mpr ((List.prefix_append_right_inj _).mp pre))
    rw [List.foldl_append, ← same, ← List.foldl_append] at room
    exact room

/-- `normalize_path` does what is expected exactly if the path does not fit or does not end in
a `..` below the root. -/
theorem normalize_path_iff (cap : Nat) (path : CString) :
    Normalizes cap path ↔ ¬(Fits cap path ∧ EndsBelowRoot path) := by
  constructor
  · rintro normal ⟨fits, ends⟩
    have eq := (normal _ (normalizePath_of_fits fits)).folded
    rw [EndsBelowRoot, names, ← folded_slashed] at ends
    rw [canonical, names_eq, Folded.text, ends] at eq
    simpa using congrArg List.length eq
  · intro ends out eq
    obtain ⟨fits, rfl⟩ := fits_of_normalizePath eq
    have plain : (folded (components path)).slashed = false := by
      rw [Bool.eq_false_iff, Ne, folded_slashed]
      exact fun slashed => ends ⟨fits, slashed⟩
    have text : (folded (components path)).text = absolute (names path) := by
      rw [Folded.text, plain, names_eq]
      simp
    have named := names_isName path
    have comps : components (absolute (names path)) = names path :=
      components_absolute fun n mem => ⟨(named n mem).1, (named n mem).2.1⟩
    have room : (absolute (names path)).length < cap := fits _ List.prefix_rfl
    have again : Fits cap (absolute (names path)) := by
      rw [fits_iff, comps]
      exact fitsSegs_names named room
    have same : folded (names path) = folded (components path) := by
      rw [folded_of_names named, names_eq, ← plain]
    rw [text]
    refine ⟨rfl, ⟨names path, named, rfl⟩, ?_, fun q => ?_⟩
    · rw [normalizePath_of_fits again, comps, same, text]
    · have left := components_append path q
      have right := components_append (absolute (names path)) q
      rw [comps] at right
      have ends_same : folded (components path ++ components q) =
          folded (names path ++ components q) := by
        have both : (components path).foldl Folded.step ⟨[], false⟩ =
            (names path).foldl Folded.step ⟨[], false⟩ := same.symm
        rw [folded, folded, List.foldl_append, List.foldl_append, both]
      have leads : (components path).foldl follow [] = (names path).foldl follow [] := by
        rw [← folded_names, ← folded_names, same]
      by_cases all : Fits cap (path ++ slash :: q)
      · have other : Fits cap (absolute (names path) ++ slash :: q) := by
          rw [fits_iff, right]
          rw [fits_iff, left] at all
          exact fitsSegs_append (fitsSegs_names named room) leads.symm all
        rw [normalizePath_of_fits all, normalizePath_of_fits other, left, right, ends_same]
      · have other : ¬Fits cap (absolute (names path) ++ slash :: q) := by
          rw [fits_iff, right]
          rw [fits_iff, left] at all
          exact fun fit => all (fitsSegs_append fits leads fit)
        rw [normalizePath_of_full all, normalizePath_of_full other]

/-- `/a/b/..` becomes `/a/`. -/
theorem slash_left_behind : ¬Normalizes 256 [slash, 97, slash, 98, slash, dot, dot] := by
  have eq : normalizePath 256 [slash, 97, slash, 98, slash, dot, dot] =
      some [slash, 97, slash] := by decide
  intro normal
  exact absurd (normal _ eq).folded (by decide)

end NTux.Libc
