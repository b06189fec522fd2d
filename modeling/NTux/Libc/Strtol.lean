import NTux.Libc.Scan

/-!
# Integers of the C library

`strtol`, `strtoul` and `strtoull` of `libc/stdlib.c`, and what the C standard says of them:
the subject, which is what they have to read of a text, and the value that it stands for.

* `cSubject`, `cLong`, `cUlong` — the standard.
* `SameSubject` — the texts and bases for which `strtol` reads the subject.
* `integer_parsing_iff` — when each of the functions returns what the standard says.
-/

namespace NTux.Libc

open NTux.Fs

/-! ## The code -/

/-- What `strtol` has read: the sign, the value of the digits in an `uint64_t`, and where
`endptr` points. -/
structure Parsed where
  negative : Bool
  value : Nat
  stop : Nat
  deriving DecidableEq

/-- The text behind the white space and the sign. -/
def unsigned (s : CString) : CString :=
  let p := s.dropWhile isSpace
  if p.head? = some 45 ∨ p.head? = some 43 then p.tail else p

/-- A minus stands behind the white space. -/
def isNegative (s : CString) : Bool := (s.dropWhile isSpace).head? = some 45

/-- The text begins with `0x` or `0X`. -/
def Prefixed (p : CString) : Prop :=
  p.head? = some 48 ∧ (p.tail.head? = some 120 ∨ p.tail.head? = some 88)

instance (p : CString) : Decidable (Prefixed p) := inferInstanceAs (Decidable (_ ∧ _))

/-- `endptr` for the digits `ds` at the beginning of `p`, which is an end of `s`. -/
def stopOf (s p ds : CString) : Nat :=
  if ds = [] then 0 else s.length - (p.length - ds.length)

/-- The base and the text of the digits, as `strtol` chooses them for a base of zero. -/
def chosen (base : Nat) (p : CString) : Nat × CString :=
  if base = 0 then
    if Prefixed p then (16, p.drop 2) else if p.head? = some 48 then (8, p.tail) else (10, p)
  else (base, p)

/-- The part of `strtol` that reads. -/
def parse (s : CString) (base : Nat) : Parsed :=
  let p := (chosen base (unsigned s)).2
  let ds := p.takeWhile (digitIn (chosen base (unsigned s)).1)
  ⟨isNegative s, wordOf (chosen base (unsigned s)).1 ds, stopOf s p ds⟩

/-- `strtol`: the value, and where `endptr` points. -/
def strtol (s : CString) (base : Nat) : Int × Nat :=
  let x := parse s base
  ((if x.negative then -(x.value : Int) else x.value).bmod (2 ^ 64), x.stop)

/-- `strtoul`, whose text is that of `strtoull` too. -/
def strtoul (s : CString) (base : Nat) : Int × Nat :=
  let v := strtol s base
  (if v.1 < 0 then 0 else v.1, v.2)

/-- `strtoull`. -/
def strtoull (s : CString) (base : Nat) : Int × Nat :=
  let v := strtol s base
  (if v.1 < 0 then 0 else v.1, v.2)

/-! ## The standard -/

/-- A base that the standard allows. -/
structure Base where
  val : Nat
  valid : val = 0 ∨ 2 ≤ val ∧ val ≤ 36

/-- The value of a digit or a letter. -/
def cDigit (c : UInt8) : Option Nat :=
  if 48 ≤ c ∧ c ≤ 57 then some (c.toNat - 48)
  else if 97 ≤ c ∧ c ≤ 122 then some (c.toNat - 87)
  else if 65 ≤ c ∧ c ≤ 90 then some (c.toNat - 55)
  else none

def cDigitIn (base : Nat) (c : UInt8) : Bool := (cDigit c).any (· < base)

/-- The number that digits denote in a base. -/
def cNumber (base : Nat) (ds : CString) : Nat :=
  ds.foldl (fun v c => v * base + (cDigit c).getD 0) 0

/-- `0x` with a digit behind it. -/
def HexPrefix (p : CString) : Prop := Prefixed p ∧ (p.drop 2).head?.any (cDigitIn 16) = true

instance (p : CString) : Decidable (HexPrefix p) := inferInstanceAs (Decidable (_ ∧ _))

/-- The base and the text of the digits in the subject. -/
def cChosen (base : Nat) (p : CString) : Nat × CString :=
  if (base = 0 ∨ base = 16) ∧ HexPrefix p then (16, p.drop 2)
  else if base = 0 then (if p.head? = some 48 then 8 else 10, p)
  else (base, p)

/-- What has to be read: the longest beginning of the text of the form that is expected. -/
def cSubject (s : CString) (base : Nat) : Parsed :=
  let p := (cChosen base (unsigned s)).2
  let ds := p.takeWhile (cDigitIn (cChosen base (unsigned s)).1)
  ⟨isNegative s, cNumber (cChosen base (unsigned s)).1 ds, stopOf s p ds⟩

/-- The value as a `long`, or the limit that it exceeds. -/
def cLong (x : Parsed) : Int :=
  max (-2 ^ 63) (min (2 ^ 63 - 1) (if x.negative then -(x.value : Int) else x.value))

/-- The value as an `unsigned long`, in which a minus negates it, or the greatest one if it
exceeds that. -/
def cUlong (x : Parsed) : Int :=
  if 2 ^ 64 ≤ x.value then 2 ^ 64 - 1
  else (if x.negative then -(x.value : Int) else x.value) % 2 ^ 64

/-! ## Where they agree -/

/-- What `strtol` reads is the subject: for base 0, `0x` has a digit behind it, and another 0
an octal digit; for base 16, `0x` has no digit behind it; and the digits up to `f` are followed
by no letter that is a digit of the base. -/
def SameSubject (s : CString) (base : Nat) : Prop :=
  let p := unsigned s
  if base = 0 then
    if Prefixed p then HexPrefix p
    else p.head? = some 48 → p.tail.head?.any (cDigitIn 8) = true
  else
    ¬(base = 16 ∧ HexPrefix p) ∧ (p.dropWhile (digitIn base)).head?.any (cDigitIn base) = false

/-- A `long` holds the value, or what is left of it in 64 bits is the limit. -/
def LongRight (x : Parsed) : Prop :=
  if x.negative then x.value ≤ 2 ^ 63 ∨ x.value % 2 ^ 64 = 2 ^ 63
  else x.value < 2 ^ 63 ∨ x.value % 2 ^ 64 = 2 ^ 63 - 1

/-- The value is less than 2^63, and with a minus it is 0, or more than 2^63 and less than
2^64. -/
def UlongRight (x : Parsed) : Prop :=
  if x.negative then x.value = 0 ∨ (2 ^ 63 < x.value ∧ x.value < 2 ^ 64) else x.value < 2 ^ 63

/-! ## Digits -/

theorem digitOf_table : ∀ n : Fin 256,
    digitOf (UInt8.ofNat n) = (cDigit (UInt8.ofNat n)).filter fun d => decide (d < 16) := by
  decide +kernel

/-- The digits of the code are those of the standard up to `f`. -/
theorem digitOf_eq (c : UInt8) : digitOf c = (cDigit c).filter fun d => decide (d < 16) := by
  have at_ := digitOf_table ⟨c.toNat, c.toNat_lt⟩
  simpa using at_

theorem cDigit_of_digitOf {c : UInt8} {d : Nat} (eq : digitOf c = some d) : cDigit c = some d := by
  rw [digitOf_eq, Option.filter_eq_some_iff] at eq
  exact eq.1

theorem digitOf_of_cDigit {c : UInt8} {d : Nat} (eq : cDigit c = some d) (lt : d < 16) :
    digitOf c = some d := by
  rw [digitOf_eq, Option.filter_eq_some_iff]
  exact ⟨eq, by simpa using lt⟩

theorem cDigitIn_of_digitIn {base : Nat} {c : UInt8} (digit : digitIn base c = true) :
    cDigitIn base c = true := by
  rw [digitIn, Option.any_eq_true] at digit
  obtain ⟨d, eq, lt⟩ := digit
  rw [cDigitIn, cDigit_of_digitOf eq]
  exact lt

theorem digitIn_eq {base : Nat} (small : base ≤ 16) : digitIn base = cDigitIn base := by
  funext c
  rw [Bool.eq_iff_iff]
  refine ⟨cDigitIn_of_digitIn, fun digit => ?_⟩
  rw [cDigitIn, Option.any_eq_true] at digit
  obtain ⟨d, eq, lt⟩ := digit
  have less : d < base := by simpa using lt
  rw [digitIn, digitOf_of_cDigit eq (by omega)]
  exact lt

/-- The digits in a word are the number modulo 2^64. -/
theorem wordOf_eq {base : Nat} {ds : CString} (digits : ∀ c ∈ ds, digitIn base c = true) :
    wordOf base ds = cNumber base ds % 2 ^ 64 := by
  induction ds using List.reverseRecOn with
  | nil => rfl
  | append_singleton ds c ih =>
      have digit := digits c (by simp)
      rw [digitIn, Option.any_eq_true] at digit
      obtain ⟨d, eq, -⟩ := digit
      have number : cNumber base (ds ++ [c]) = cNumber base ds * base + d := by
        simp [cNumber, cDigit_of_digitOf eq]
      rw [wordOf_append, number, ih fun x mem => digits x (by simp [mem]), eq, Option.getD_some,
        Nat.add_mod, Nat.mod_mul_mod, ← Nat.add_mod]

/-! ## Reading -/

/-- The digits of the code are the beginning of those of the standard, and end there exactly
if no such digit follows. -/
theorem runs (base : Nat) (p : CString) :
    ((p.dropWhile (digitIn base)).head?.any (cDigitIn base) = false →
      p.takeWhile (cDigitIn base) = p.takeWhile (digitIn base)) ∧
    ((p.dropWhile (digitIn base)).head?.any (cDigitIn base) = true →
      (p.takeWhile (digitIn base)).length < (p.takeWhile (cDigitIn base)).length) := by
  induction p with
  | nil => simp
  | cons c p ih =>
      by_cases digit : digitIn base c = true
      · have cDigit := cDigitIn_of_digitIn digit
        rw [List.dropWhile_cons_of_pos digit, List.takeWhile_cons_of_pos digit,
          List.takeWhile_cons_of_pos cDigit]
        exact ⟨fun stop => congrArg (c :: ·) (ih.1 stop),
          fun more => Nat.succ_lt_succ (ih.2 more)⟩
      · rw [List.dropWhile_cons_of_neg digit, List.takeWhile_cons_of_neg digit]
        by_cases cDigit : cDigitIn base c = true
        · simp [cDigit]
        · simp [cDigit]

theorem unsigned_suffix (s : CString) : unsigned s <:+ s := by
  unfold unsigned
  dsimp only
  split_ifs
  · exact (List.tail_suffix _).trans (List.dropWhile_suffix _)
  · exact List.dropWhile_suffix _

/-- An end that is behind more digits is another end. -/
theorem stopOf_ne {s p q ds es : CString} (inside : q.length ≤ s.length)
    (digits : es.length ≤ q.length) (some : es ≠ [])
    (more : q.length - es.length < p.length - ds.length ∨ ds = []) :
    stopOf s p ds ≠ stopOf s q es := by
  have pos := List.length_pos_of_ne_nil some
  unfold stopOf
  rw [if_neg some]
  split_ifs with empty
  · omega
  · have less := more.resolve_right empty
    omega

/-- What is expected of a function of the library that reads as `strtol` does. -/
def Returns (f : CString → Nat → Int × Nat) (value : Parsed → Int) (s : CString) (base : Nat) :
    Prop := f s base = (value (cSubject s base), (cSubject s base).stop)

theorem takeWhile_length_le {p : UInt8 → Bool} (l : CString) :
    (l.takeWhile p).length ≤ l.length := (List.takeWhile_sublist p).length_le

theorem wordOf_takeWhile (base : Nat) (p : CString) :
    wordOf base (p.takeWhile (digitIn base)) =
      cNumber base (p.takeWhile (digitIn base)) % 2 ^ 64 :=
  wordOf_eq fun c mem => List.all_eq_true.mp List.all_takeWhile c mem

/-- From one text and in one base the same digits are read. -/
theorem parse_of_chosen {s q : CString} {base b : Nat} (code : chosen base (unsigned s) = (b, q))
    (std : cChosen base (unsigned s) = (b, q))
    (run : q.takeWhile (cDigitIn b) = q.takeWhile (digitIn b)) :
    parse s base = { cSubject s base with value := (cSubject s base).value % 2 ^ 64 } := by
  simp only [parse, cSubject, code, std, run, wordOf_takeWhile]

/-- `strtol` reads the subject, with its value modulo 2^64. -/
theorem parse_same {s : CString} {base : Nat} (same : SameSubject s base) :
    parse s base = { cSubject s base with value := (cSubject s base).value % 2 ^ 64 } := by
  unfold SameSubject at same
  dsimp only at same
  by_cases zero : base = 0
  · subst zero
    rw [if_pos rfl] at same
    by_cases prefixed : Prefixed (unsigned s)
    · rw [if_pos prefixed] at same
      refine parse_of_chosen (b := 16) (q := (unsigned s).drop 2) ?_ ?_ ?_
      · rw [chosen, if_pos rfl, if_pos prefixed]
      · rw [cChosen, if_pos ⟨.inl rfl, same⟩]
      · rw [digitIn_eq (Nat.le_refl 16)]
    · rw [if_neg prefixed] at same
      have noHex : ¬((0 = 0 ∨ 0 = 16) ∧ HexPrefix (unsigned s)) := fun hex => prefixed hex.2.1
      by_cases octal : (unsigned s).head? = some 48
      · have next := same octal
        have std : cChosen 0 (unsigned s) = (8, unsigned s) := by
          rw [cChosen, if_neg noHex, if_pos rfl, if_pos octal]
        have code : chosen 0 (unsigned s) = (8, (unsigned s).tail) := by
          rw [chosen, if_pos rfl, if_neg prefixed, if_pos octal]
        simp only [parse, cSubject, code, std, digitIn_eq (by decide : 8 ≤ 16)]
        generalize unsigned s = p at octal next
        cases p with
        | nil => cases octal
        | cons c t =>
            obtain rfl : c = 48 := by simpa using octal
            have leading : cDigitIn 8 48 = true := by decide
            have zeroValue : cDigit 48 = some 0 := by decide
            have digits : t.takeWhile (cDigitIn 8) ≠ [] := by
              cases t with
              | nil => cases next
              | cons d t =>
                  have first : cDigitIn 8 d = true := by simpa using next
                  rw [List.takeWhile_cons_of_pos first]
                  exact List.cons_ne_nil _ _
            rw [List.tail_cons, List.takeWhile_cons_of_pos leading, stopOf, stopOf, if_neg digits,
              if_neg (List.cons_ne_nil _ _), List.length_cons, List.length_cons,
              Nat.add_sub_add_right]
            have value := wordOf_takeWhile 8 t
            rw [digitIn_eq (by decide : 8 ≤ 16)] at value
            simpa [cNumber, zeroValue] using value
      · refine parse_of_chosen (b := 10) (q := unsigned s) ?_ ?_ ?_
        · rw [chosen, if_pos rfl, if_neg prefixed, if_neg octal]
        · rw [cChosen, if_neg noHex, if_pos rfl, if_neg octal]
        · rw [digitIn_eq (by decide : 10 ≤ 16)]
  · rw [if_neg zero] at same
    have noHex : ¬((base = 0 ∨ base = 16) ∧ HexPrefix (unsigned s)) := by
      rintro ⟨zero' | hex, prefixed⟩
      · exact zero zero'
      · exact same.1 ⟨hex, prefixed⟩
    refine parse_of_chosen (b := base) (q := unsigned s) ?_ ?_ ((runs base _).1 same.2)
    · rw [chosen, if_neg zero]
    · rw [cChosen, if_neg noHex, if_neg zero]

/-- The first digit of a text is a part of the subject. -/
theorem takeWhile_ne_nil {q : UInt8 → Bool} {p : CString} (first : p.head?.any q = true) :
    p.takeWhile q ≠ [] := by
  cases p with
  | nil => cases first
  | cons c p =>
      rw [List.takeWhile_cons_of_pos (by simpa using first)]
      exact List.cons_ne_nil _ _

/-- Nothing is read if the first character is no digit. -/
theorem takeWhile_eq_nil {q : UInt8 → Bool} {p : CString} (first : ¬p.head?.any q = true) :
    p.takeWhile q = [] := by
  cases p with
  | nil => rfl
  | cons c p =>
      refine List.takeWhile_cons_of_neg fun digit => first ?_
      simpa using digit

/-- Behind `0x` no more than the zero is read if the prefix is not taken off. -/
theorem hex_run_le {p : CString} (prefixed : Prefixed p) :
    (p.takeWhile (digitIn 16)).length ≤ 1 := by
  obtain ⟨zeroFirst, x⟩ := prefixed
  match p, zeroFirst, x with
  | c :: d :: q, _, x =>
      have stop : digitIn 16 d = false := by
        rcases x with x | x
        · obtain rfl : d = 120 := by simpa using x
          decide
        · obtain rfl : d = 88 := by simpa using x
          decide
      rw [List.takeWhile_cons]
      split_ifs
      · rw [List.takeWhile_cons_of_neg (by simp [stop])]
        exact Nat.le_refl 1
      · exact Nat.zero_le 1
  | [c], _, x => simp at x

/-- Where `strtol` does not read the subject, `endptr` tells. -/
theorem parse_differs {s : CString} {base : Nat} (differ : ¬SameSubject s base) :
    (parse s base).stop ≠ (cSubject s base).stop := by
  unfold SameSubject at differ
  dsimp only at differ
  have short := (unsigned_suffix s).length_le
  simp only [parse, cSubject]
  generalize unsigned s = p at differ short
  by_cases zero : base = 0
  · subst zero
    rw [if_pos rfl] at differ
    by_cases prefixed : Prefixed p
    · rw [if_pos prefixed] at differ
      have code : chosen 0 p = (16, p.drop 2) := by rw [chosen, if_pos rfl, if_pos prefixed]
      have std : cChosen 0 p = (8, p) := by
        rw [cChosen, if_neg fun h => differ h.2, if_pos rfl, if_pos prefixed.1]
      have none : (p.drop 2).takeWhile (digitIn 16) = [] := by
        rw [digitIn_eq (Nat.le_refl 16)]
        exact takeWhile_eq_nil fun digit => differ ⟨prefixed, digit⟩
      have some : p.takeWhile (cDigitIn 8) ≠ [] :=
        takeWhile_ne_nil (by rw [prefixed.1]; decide)
      rw [code, std]
      exact stopOf_ne short (takeWhile_length_le p) some (.inr none)
    · rw [if_neg prefixed, not_forall] at differ
      obtain ⟨octal, last⟩ := differ
      have code : chosen 0 p = (8, p.tail) := by
        rw [chosen, if_pos rfl, if_neg prefixed, if_pos octal]
      have std : cChosen 0 p = (8, p) := by
        rw [cChosen, if_neg fun h => prefixed h.2.1, if_pos rfl, if_pos octal]
      have none : p.tail.takeWhile (digitIn 8) = [] := by
        rw [digitIn_eq (by decide : 8 ≤ 16)]
        exact takeWhile_eq_nil last
      have some : p.takeWhile (cDigitIn 8) ≠ [] :=
        takeWhile_ne_nil (by rw [octal]; decide)
      rw [code, std]
      exact stopOf_ne short (takeWhile_length_le p) some (.inr none)
  · rw [if_neg zero] at differ
    have code : chosen base p = (base, p) := by rw [chosen, if_neg zero]
    rw [code]
    by_cases hex : base = 16 ∧ HexPrefix p
    · obtain ⟨rfl, hex⟩ := hex
      have std : cChosen 16 p = (16, p.drop 2) := by rw [cChosen, if_pos ⟨.inr rfl, hex⟩]
      rw [std]
      have some := takeWhile_ne_nil hex.2
      refine stopOf_ne ?_ (takeWhile_length_le _) some (.inl ?_)
      · rw [List.length_drop]
        omega
      · -- the zero is the only digit that the code reads
        have one := hex_run_le hex.1
        have more := List.length_pos_of_ne_nil some
        have inside := takeWhile_length_le (p := cDigitIn 16) (p.drop 2)
        rw [List.length_drop] at inside
        dsimp only
        rw [List.length_drop]
        omega
    · have more : (p.dropWhile (digitIn base)).head?.any (cDigitIn base) = true := by
        by_contra none
        exact differ ⟨hex, Bool.eq_false_iff.mpr none⟩
      have longer := (runs base p).2 more
      have std : cChosen base p = (base, p) := by
        rw [cChosen, if_neg, if_neg zero]
        rintro ⟨zero' | sixteen, prefixed⟩
        · exact zero zero'
        · exact hex ⟨sixteen, prefixed⟩
      rw [std]
      refine stopOf_ne short (takeWhile_length_le p) ?_ (.inl ?_)
      · intro empty
        rw [empty] at longer
        exact absurd longer (Nat.not_lt_zero _)
      · have inside := takeWhile_length_le (p := cDigitIn base) p
        dsimp only
        omega

/-! ## Values -/

/-- What `strtol` returns for what it has read. -/
def longOf (x : Parsed) : Int := (if x.negative then -(x.value : Int) else x.value).bmod (2 ^ 64)

/-- What `strtoul` and `strtoull` return for it. -/
def ulongOf (x : Parsed) : Int := if longOf x < 0 then 0 else longOf x

/-- A value modulo 2^64 with its sign is the value, or the limit that it exceeds. -/
theorem long_iff (x : Parsed) :
    longOf { x with value := x.value % 2 ^ 64 } = cLong x ↔ LongRight x := by
  unfold longOf cLong LongRight Int.bmod
  cases x.negative
  · simp only [Bool.false_eq_true, if_false]
    omega
  · simp only [if_true]
    omega

theorem ulong_iff (x : Parsed) :
    ulongOf { x with value := x.value % 2 ^ 64 } = cUlong x ↔ UlongRight x := by
  unfold ulongOf longOf cUlong UlongRight Int.bmod
  cases x.negative
  · simp only [Bool.false_eq_true, if_false]
    omega
  · simp only [if_true]
    omega

/-- A function that reads with `parse` returns what the standard says exactly if it reads the
subject and its value is right. -/
theorem returns_iff {f : CString → Nat → Int × Nat} (code value : Parsed → Int)
    (right : Parsed → Prop)
    (reads : ∀ s base, f s base = (code (parse s base), (parse s base).stop))
    (exact_ : ∀ x : Parsed, code { x with value := x.value % 2 ^ 64 } = value x ↔ right x)
    (s : CString) (base : Nat) :
    Returns f value s base ↔ SameSubject s base ∧ right (cSubject s base) := by
  unfold Returns
  rw [reads, Prod.mk.injEq]
  by_cases same : SameSubject s base
  · rw [parse_same same, exact_]
    exact ⟨fun h => ⟨same, h.1⟩, fun h => ⟨h.2, rfl⟩⟩
  · exact iff_of_false (fun h => parse_differs same h.2) fun h => same h.1

/-- The functions return what the standard says, with `endptr` behind the subject, exactly if
`strtol` reads the subject, and its value is one that a `long` holds, or that the unsigned
functions take for what it is. -/
theorem integer_parsing_iff (s : CString) (base : Base) :
    (Returns strtol cLong s base.val ↔
      SameSubject s base.val ∧ LongRight (cSubject s base.val)) ∧
    (Returns strtoul cUlong s base.val ↔
      SameSubject s base.val ∧ UlongRight (cSubject s base.val)) ∧
    (Returns strtoull cUlong s base.val ↔
      SameSubject s base.val ∧ UlongRight (cSubject s base.val)) :=
  ⟨returns_iff longOf cLong LongRight (fun _ _ => rfl) long_iff s base.val,
    returns_iff ulongOf cUlong UlongRight (fun _ _ => rfl) ulong_iff s base.val,
    returns_iff ulongOf cUlong UlongRight (fun _ _ => rfl) ulong_iff s base.val⟩

/-- `0x1F` in base 16 is read as 0. -/
theorem hex_prefix_left : ¬Returns strtol cLong (text "0x1F") 16 := by
  unfold Returns
  decide

end NTux.Libc
