import NTux.Libc.Format
import Mathlib.Data.List.TakeWhile

/-!
# Scanning

`vscan_core` of `libc/stdio.c`, with `parse_uint` and `parse_int`.  What `%d` prints is read
back by `%d`, and what `%x` prints by `%x`; with what `Format` says of the capacity this is
`formatting_laws`.
-/

namespace NTux.Libc

open NTux.Fs

/-! ## Numbers -/

/-- `is_space`. -/
def isSpace (c : UInt8) : Bool := c == 32 || c == 9 || c == 10 || c == 13 || c == 12 || c == 11

/-- The value of a digit or of a letter up to `f`. -/
def digitOf (c : UInt8) : Option Nat :=
  if 48 ≤ c ∧ c ≤ 57 then some (c.toNat - 48)
  else if 97 ≤ c ∧ c ≤ 102 then some (c.toNat - 87)
  else if 65 ≤ c ∧ c ≤ 70 then some (c.toNat - 55)
  else none

/-- A digit that is less than the base. -/
def digitIn (base : Nat) (c : UInt8) : Bool := (digitOf c).any (· < base)

/-- The digits in an `uint64_t`. -/
def wordOf (base : Nat) (ds : CString) : Nat :=
  ds.foldl (fun v c => (v * base + (digitOf c).getD 0) % 2 ^ 64) 0

/-- `parse_uint`: the value of the digits, and what is behind them. -/
def parseUint (base : Nat) (s : CString) : Option (Nat × CString) :=
  let ds := s.takeWhile (digitIn base)
  if ds = [] then none else some (wordOf base ds, s.dropWhile (digitIn base))

/-- `parse_int`. -/
def parseInt (base : Nat) (s : CString) : Option (Int × CString) :=
  let signed := s.head? = some 45
  (parseUint base (if signed ∨ s.head? = some 43 then s.tail else s)).map fun (v, rest) =>
    (int32 (if signed then -(v : Int) else v), rest)

/-! ## The loop -/

/-- What is stored through a pointer. -/
inductive Stored
  | text (s : CString)
  | int (v : Int)
  deriving DecidableEq

/-- How a turn ends: it goes on, with what it has stored and counted, or the loop ends, or
nothing could be read, though something may have been stored. -/
inductive ScanTurn
  | next (src fmt : CString) (stored : Option Stored)
  | stop
  | fail (stored : Option Stored)

/-- The text that `%s` and `%[` store, and what is behind it. -/
def scanText (out src fmt : CString) : ScanTurn :=
  if out = [] then .fail (some (.text [])) else .next (src.drop out.length) fmt (some (.text out))

/-- The number that `%d`, `%i` and `%x` store. -/
def scanNumber (k : UInt8) (src fmt : CString) : ScanTurn :=
  let src := src.dropWhile isSpace
  let prefixed := src.head? = some 48 ∧ (src.tail.head? = some 120 ∨ src.tail.head? = some 88)
  let base :=
    if k = 120 then 16
    else if k = 105 ∧ prefixed then 16
    else if k = 105 ∧ src.head? = some 48 then 8
    else 10
  match parseInt base (if k = 105 ∧ prefixed then src.drop 2 else src) with
  | none => .fail none
  | some (v, rest) => .next rest fmt (some (.int v))

/-- A turn of the loop of `vscan_core`; `c` is the first character of the format. -/
def scanTurn (c : UInt8) (fmt src : CString) : ScanTurn :=
  if isSpace c then .next (src.dropWhile isSpace) fmt none
  else if c ≠ 37 then if src.head? = some c then .next src.tail fmt none else .stop
  else
    let width := decimal (fmt.takeWhile isDigit)
    let fmt := fmt.dropWhile isDigit
    let room := fun s : CString => if width = 0 then s else s.take width.toNat
    match fmt with
    | [] => .stop
    | k :: fmt =>
        if k = 115 then
          let src := src.dropWhile isSpace
          scanText (room (src.takeWhile fun c => !isSpace c)) src fmt
        else if k = 91 then
          let invert := decide (fmt.head? = some 94)
          let fmt := if invert then fmt.tail else fmt
          let last := fmt.head?
          let fmt := (fmt.dropWhile (· != 93)).tail
          scanText (room (src.takeWhile fun c => decide (some c = last) != invert)) src fmt
        else if k = 100 ∨ k = 105 ∨ k = 120 then scanNumber k src fmt
        else .stop

/-- `vscan_core`: what is returned, and what is stored.  A turn takes a character of the
format at least. -/
def vscanCore : Nat → CString → CString → Nat → List Stored → Int × List Stored
  | 0, _, _, assigned, stored => (assigned, stored)
  | _ + 1, _, [], assigned, stored => (assigned, stored)
  | fuel + 1, src, c :: fmt, assigned, stored =>
      match scanTurn c fmt src with
      | .next src fmt none => vscanCore fuel src fmt assigned stored
      | .next src fmt (some x) => vscanCore fuel src fmt (assigned + 1) (stored ++ [x])
      | .stop => (assigned, stored)
      | .fail x => (if assigned = 0 then -1 else assigned, stored ++ x.toList)

/-- `sscanf`. -/
def sscanf (src fmt : CString) : Int × List Stored := vscanCore fmt.length src fmt 0 []

/-! ## Digits read back -/

theorem digitOf_digitChar : ∀ d, d < 16 → digitOf (digitChar false d) = some d := by decide

theorem digitChar_first : ∀ d, d < 16 →
    isSpace (digitChar false d) = false ∧ digitChar false d ≠ 45 ∧ digitChar false d ≠ 43 := by
  decide

theorem tmpDigits_digits {base : Nat} (two : 2 ≤ base) (small : base ≤ 16) (n v : Nat) :
    ∀ c ∈ tmpDigits base false n v, ∃ d, d < base ∧ c = digitChar false d := by
  induction n generalizing v with
  | zero => simp [tmpDigits]
  | succ n ih =>
      intro c mem
      rw [tmpDigits] at mem
      split_ifs at mem with zero
      · cases mem
      · rcases List.mem_cons.mp mem with rfl | mem
        · exact ⟨v % base, Nat.mod_lt _ (by omega), rfl⟩
        · exact ih _ c mem

theorem wordOf_append (base : Nat) (ds : CString) (c : UInt8) :
    wordOf base (ds ++ [c]) = (wordOf base ds * base + (digitOf c).getD 0) % 2 ^ 64 := by
  simp [wordOf]

/-- The digits of a word are read as the word. -/
theorem wordOf_tmpDigits {base : Nat} (two : 2 ≤ base) (small : base ≤ 16) {n v : Nat}
    (room : v < base ^ n) (word : v < 2 ^ 64) :
    wordOf base (tmpDigits base false n v).reverse = v := by
  induction n generalizing v with
  | zero =>
      rw [Nat.pow_zero] at room
      have zero : v = 0 := by omega
      rw [zero]
      rfl
  | succ n ih =>
      rw [tmpDigits]
      split_ifs with zero
      · rw [zero]
        rfl
      · have digit : v % base < base := Nat.mod_lt _ (by omega)
        have rest := ih (v := v / base)
          (Nat.div_lt_of_lt_mul (by rw [Nat.pow_succ, Nat.mul_comm] at room; exact room))
          (Nat.lt_of_le_of_lt (Nat.div_le_self _ _) word)
        rw [List.reverse_cons, wordOf_append, rest, digitOf_digitChar _ (by omega),
          Option.getD_some, Nat.mul_comm, Nat.div_add_mod, Nat.mod_eq_of_lt word]

theorem tmpDigits_length (base : Nat) (upper : Bool) (n v : Nat) :
    (tmpDigits base upper n v).length ≤ n := by
  induction n generalizing v with
  | zero => exact Nat.le_refl _
  | succ n ih =>
      rw [tmpDigits]
      split_ifs
      · exact Nat.zero_le _
      · exact Nat.succ_le_succ (ih _)

/-- The text of a word: digits that are read as it. -/
theorem u64ToStr_spec {base v : Nat} (two : 2 ≤ base) (small : base ≤ 16)
    (room : v < base ^ 32) (word : v < 2 ^ 64) :
    u64ToStr v base false 64 ≠ [] ∧ wordOf base (u64ToStr v base false 64) = v ∧
      ∀ c ∈ u64ToStr v base false 64, ∃ d, d < base ∧ c = digitChar false d := by
  have all : u64ToStr v base false 64 =
      (if v = 0 then [48] else tmpDigits base false 32 v).reverse := by
    refine List.take_of_length_le ?_
    have length := tmpDigits_length base false 32 v
    rw [List.length_reverse]
    split_ifs
    · simp
    · omega
  rw [all]
  by_cases zero : v = 0
  · rw [if_pos zero, zero]
    have value : wordOf base [48] = 0 := by
      simp [wordOf, digitOf]
    refine ⟨by simp, value, fun c mem => ⟨0, by omega, ?_⟩⟩
    exact List.mem_singleton.mp mem
  · rw [if_neg zero]
    refine ⟨?_, wordOf_tmpDigits two small room word, fun c mem => ?_⟩
    · rw [tmpDigits, if_neg zero]
      simp
    · exact tmpDigits_digits two small 32 v c (List.mem_reverse.mp mem)

/-- Digits are read to their end. -/
theorem parseUint_digits {base : Nat} (small : base ≤ 16) {ds : CString} (ne : ds ≠ [])
    (digits : ∀ c ∈ ds, ∃ d, d < base ∧ c = digitChar false d) :
    parseUint base ds = some (wordOf base ds, []) := by
  have all : ∀ c ∈ ds, digitIn base c = true := by
    intro c mem
    obtain ⟨d, lt, rfl⟩ := digits c mem
    simp [digitIn, digitOf_digitChar d (by omega), lt]
  have take : ds.takeWhile (digitIn base) = ds := List.takeWhile_eq_self_iff.mpr all
  have drop : ds.dropWhile (digitIn base) = [] := List.dropWhile_eq_nil_iff.mpr all
  simp [parseUint, take, drop, ne]

/-- A number with or without a minus is read by `%d` and `%x`. -/
theorem scanNumber_digits (base v : Nat) (k : UInt8) (negative : Bool) (two : 2 ≤ base)
    (small : base ≤ 16) (room : v < base ^ 32) (word : v < 2 ^ 64)
    (letter : (k = 100 ∧ base = 10) ∨ (k = 120 ∧ base = 16)) :
    scanNumber k ((if negative then [45] else []) ++ u64ToStr v base false 64) [] =
      .next [] [] (some (.int (int32 (if negative then -(v : Int) else v)))) := by
  obtain ⟨ne, value, digits⟩ := u64ToStr_spec two small room word
  have parsed := parseUint_digits small ne digits
  rw [value] at parsed
  obtain ⟨c, rest, eq⟩ := List.exists_cons_of_ne_nil ne
  obtain ⟨d, lt, rfl⟩ := digits c (by rw [eq]; exact List.mem_cons_self)
  obtain ⟨blank, minus, plus⟩ := digitChar_first d (by omega)
  have not_i : k ≠ 105 := by
    rcases letter with ⟨rfl, -⟩ | ⟨rfl, -⟩ <;> decide
  have chosen : (if k = 120 then 16 else 10) = base := by
    rcases letter with ⟨rfl, rfl⟩ | ⟨rfl, rfl⟩ <;> rfl
  rw [eq] at parsed ⊢
  cases negative with
  | true =>
      have head : isSpace 45 = false := by decide
      simp [scanNumber, head, not_i, chosen, parseInt, parsed]
  | false => simp [scanNumber, blank, not_i, chosen, parseInt, parsed, minus, plus]

/-! ## Round trips -/

theorem int32_of_range {v : Int} (low : -2 ^ 31 ≤ v) (high : v < 2 ^ 31) : int32 v = v :=
  Int.bmod_eq_of_le (by omega) (by omega)

theorem putNumber_plain {d : Directive} (sign num : CString) (width : d.width = 0)
    (precision : d.precision = -1) (short : num.length + sign.length < 2 ^ 31) :
    putNumber d sign num = sign ++ num := by
  have zeros : ¬(0 ≤ d.precision ∧ (num.length : Int) < d.precision) := by omega
  have pad : (int32 (d.width - int32 (num.length + 0 + sign.length))).toNat = 0 := by
    rw [int32_of_range (v := num.length + 0 + sign.length) (by omega) (by omega), width,
      int32_of_range (by omega) (by omega)]
    omega
  simp only [putNumber, if_neg zeros, pad]
  simp

theorem u64ToStr_length (v base : Nat) (upper : Bool) : (u64ToStr v base upper 64).length ≤ 63 := by
  unfold u64ToStr
  rw [List.length_take]
  omega

/-- The output of `%d`. -/
theorem formatted_d (va : Nat → Arg) :
    formatted (text "%d") va =
      (if (va 0).int < 0 then [45] else []) ++ u64ToStr (va 0).int.natAbs 10 false 64 := by
  have out : formatted (text "%d") va =
      (putNumber (readDirective [100]) (if (va 0).int < 0 then [45] else [])
        (u64ToStr (va 0).int.natAbs 10 false 64)).foldl (fun s c => s ++ [c]) [] := rfl
  have length := u64ToStr_length (va 0).int.natAbs 10 false
  rw [out, foldl_snoc, List.nil_append, putNumber_plain _ _ (by rfl) (by rfl)]
  split_ifs <;> simp <;> omega

/-- The output of `%x`. -/
theorem formatted_x (va : Nat → Arg) :
    formatted (text "%x") va = u64ToStr ((va 0).word.setWidth 32).toNat 16 false 64 := by
  have out : formatted (text "%x") va =
      (putNumber (readDirective [120]) []
        (u64ToStr ((va 0).word.setWidth 32).toNat 16 false 64)).foldl (fun s c => s ++ [c]) [] := rfl
  have length := u64ToStr_length ((va 0).word.setWidth 32).toNat 16 false
  rw [out, foldl_snoc, List.nil_append, putNumber_plain _ _ (by rfl) (by rfl)]
  · rfl
  · rw [List.length_nil]
    omega

theorem Arg.int_range (a : Arg) : -2 ^ 31 ≤ a.int ∧ a.int < 2 ^ 31 :=
  ⟨BitVec.le_toInt _, BitVec.toInt_lt⟩

/-- A format of one number stores it. -/
theorem sscanf_number {k : UInt8} {src : CString} {x : Stored} (letter : k = 100 ∨ k = 120)
    (read : scanNumber k src [] = .next [] [] (some x)) : sscanf src [37, k] = (1, [x]) := by
  have turn : scanTurn 37 [k] src = scanNumber k src [] := by
    rcases letter with rfl | rfl <;> simp [scanTurn, isSpace, isDigit]
  rw [sscanf, List.length_cons, vscanCore, turn, read]
  rfl

/-- `%d` reads what `%d` prints. -/
theorem sscanf_d (va : Nat → Arg) :
    sscanf (formatted (text "%d") va) (text "%d") = (1, [.int (va 0).int]) := by
  obtain ⟨low, high⟩ := (va 0).int_range
  have read := scanNumber_digits 10 (va 0).int.natAbs 100
    (decide ((va 0).int < 0)) (by decide) (by decide) (by omega) (by omega) (.inl ⟨rfl, rfl⟩)
  have value : (if decide ((va 0).int < 0) = true then -((va 0).int.natAbs : Int)
      else (va 0).int.natAbs) = (va 0).int := by
    simp only [decide_eq_true_eq]
    split_ifs <;> omega
  rw [value, int32_of_range low high] at read
  simp only [decide_eq_true_eq] at read
  rw [← formatted_d] at read
  exact sscanf_number (.inl rfl) read

/-- `%x` reads what `%x` prints. -/
theorem sscanf_x (va : Nat → Arg) (nonneg : 0 ≤ (va 0).int) :
    sscanf (formatted (text "%x") va) (text "%x") = (1, [.int (va 0).int]) := by
  obtain ⟨low, high⟩ := (va 0).int_range
  have value : (((va 0).word.setWidth 32).toNat : Int) = (va 0).int := by
    rw [Arg.int, BitVec.toInt_eq_toNat_cond] at nonneg ⊢
    split_ifs at nonneg ⊢ <;> omega
  have read := scanNumber_digits 16 ((va 0).word.setWidth 32).toNat 120
    false (by decide) (by decide) (by omega) (by omega) (.inr ⟨rfl, rfl⟩)
  simp only [Bool.false_eq_true, if_false, List.nil_append] at read
  rw [value, int32_of_range low high] at read
  rw [← formatted_x] at read
  exact sscanf_number (.inr rfl) read

/-- Formatting is bounded, with the length of the output as an `int` returned, so the length
itself where an `int` holds it; and what `%d` and `%x` print is read back. -/
theorem formatting_laws (va : Nat → Arg) :
    (∀ fmt, Bounded (fun n => int32 n) fmt va) ∧
    (∀ n : Nat, n < 2 ^ 31 → int32 n = n) ∧
    sscanf (formatted (text "%d") va) (text "%d") = (1, [.int (va 0).int]) ∧
    (0 ≤ (va 0).int →
      sscanf (formatted (text "%x") va) (text "%x") = (1, [.int (va 0).int])) :=
  ⟨fun fmt => vsnprintf_bounded fmt va, fun _ small => int32_of_range (by omega) (by omega),
    sscanf_d va, sscanf_x va⟩

theorem formatting_laws_answer :
    0 ≤ (⟨42, none⟩ : Arg).int ∧
      sscanf (formatted (text "%x") fun _ => ⟨42, none⟩) (text "%x") = (1, [.int 42]) :=
  ⟨by decide, (formatting_laws fun _ => ⟨42, none⟩).2.2.2 (by decide)⟩

/-- For 2^31 characters a negative number is returned. -/
theorem length_wraps : ¬∀ (fmt : CString) (va : Nat → Arg), Bounded (fun n => n) fmt va := by
  intro bounded
  let va : Nat → Arg := fun _ => ⟨0, some (List.replicate (2 ^ 31) 97)⟩
  obtain ⟨out, unlimited, at_⟩ := bounded (text "%s") va
  have length : out.length = 2 ^ 31 := by
    rw [unlimited_unique unlimited, formatted_text va rfl, List.length_replicate]
  have returned := (at_ 0).2.2
  rw [vsnprintf_eq, formatted_text va rfl, List.length_replicate, length] at returned
  exact absurd returned (by decide)

end NTux.Libc
