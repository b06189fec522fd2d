import NTux.Fs.Vfs
import Mathlib.Data.List.Basic

/-!
# Formatted output

`format_to` of `libc/stdio.c`, and `vsnprintf`, which puts its output into a buffer.  Every
character goes through `out_char`, so the loop is a function of what that does with one; the
characters are the same for all capacities.

* `formatted` — the characters.
* `Bounded` — what is expected of `vsnprintf` for a format and arguments, with the value
  returned for a number of characters.
* `vsnprintf_bounded` — it holds if the number is taken as an `int`.
-/

namespace NTux.Libc

open NTux.Fs

/-- A value stored in an `int`. -/
def int32 (v : Int) : Int := v.bmod (2 ^ 32)

/-- The bytes of a literal. -/
def text (s : String) : CString := s.toList.map fun c => UInt8.ofNat c.toNat

/-- `is_digit`. -/
def isDigit (c : UInt8) : Bool := 48 ≤ c && c ≤ 57

/-- What `va_arg` finds: a word, and the text at it if it is taken for a pointer to one that is
not null. -/
structure Arg where
  word : BitVec 64
  text : Option CString

/-- `va_arg` of an `int`. -/
def Arg.int (a : Arg) : Int := (a.word.setWidth 32).toInt

/-! ## Directives -/

/-- What stands between `%` and the letter, and the format from the letter on. -/
structure Directive where
  zeroPad : Bool
  width : Int
  precision : Int
  longs : Nat
  rest : CString

/-- Decimal digits in an `int`. -/
def decimal (s : CString) : Int :=
  s.foldl (fun v c => int32 (v * 10 + (c.toNat - 48 : Int))) 0

/-- The part of `format_to` from a `%` to the letter. -/
def readDirective (fmt : CString) : Directive :=
  let zeroPad := fmt.head? = some 48
  let fmt := if zeroPad then fmt.tail else fmt
  let width := decimal (fmt.takeWhile isDigit)
  let fmt := fmt.dropWhile isDigit
  let dotted := fmt.head? = some 46
  let precision := if dotted then decimal (fmt.tail.takeWhile isDigit) else -1
  let fmt := if dotted then fmt.tail.dropWhile isDigit else fmt
  ⟨zeroPad, width, precision, (fmt.takeWhile (· == 108)).length, fmt.dropWhile (· == 108)⟩

/-- The letter of a digit. -/
def digitChar (upper : Bool) (d : Nat) : UInt8 :=
  if d < 10 then UInt8.ofNat (48 + d) else UInt8.ofNat ((if upper then 55 else 87) + d)

/-- The digits in `tmp`, the lowest first, with room for `n` more. -/
def tmpDigits (base : Nat) (upper : Bool) : Nat → Nat → CString
  | 0, _ => []
  | n + 1, v =>
      if v = 0 then [] else digitChar upper (v % base) :: tmpDigits base upper n (v / base)

/-- `u64_to_str`. -/
def u64ToStr (v base : Nat) (upper : Bool) (cap : Nat) : CString :=
  (if v = 0 then [48] else tmpDigits base upper 32 v).reverse.take (cap - 1)

/-- The digits of a number behind its padding, its sign and the zeros of the precision. -/
def putNumber (d : Directive) (sign num : CString) : CString :=
  let precZeros : Int :=
    if 0 ≤ d.precision ∧ (num.length : Int) < d.precision then d.precision - num.length else 0
  let total := int32 (num.length + precZeros + sign.length)
  let pad := int32 (d.width - total)
  let padch : UInt8 := if d.zeroPad ∧ d.precision < 0 then 48 else 32
  List.replicate pad.toNat padch ++ sign ++ List.replicate precZeros.toNat 48 ++ num

/-- The value of `%d`. -/
def signedArg (d : Directive) (a : Arg) : Int := if 1 ≤ d.longs then a.word.toInt else a.int

/-- The value of `%u`, `%x` and `%X`. -/
def unsignedArg (d : Directive) (a : Arg) : Nat :=
  if 1 ≤ d.longs then a.word.toNat else (a.word.setWidth 32).toNat

/-- What the letter of a directive puts out, and whether it takes an argument. -/
def convert (d : Directive) (a : Arg) : CString × Bool :=
  match d.rest.head? with
  | none => ([37], false)
  | some c =>
      if c = 99 then ([UInt8.ofNat a.word.toNat], true)
      else if c = 115 then (a.text.getD (text "(null)"), true)
      else if c = 100 ∨ c = 105 then
        let v := signedArg d a
        (putNumber d (if v < 0 then [45] else []) (u64ToStr v.natAbs 10 false 64), true)
      else if c = 117 then (putNumber d [] (u64ToStr (unsignedArg d a) 10 false 64), true)
      else if c = 120 then (putNumber d [] (u64ToStr (unsignedArg d a) 16 false 64), true)
      else if c = 88 then (putNumber d [] (u64ToStr (unsignedArg d a) 16 true 64), true)
      else if c = 112 then (putNumber d [] (u64ToStr a.word.toNat 16 false 64), true)
      else if c = 37 then ([37], false)
      else ([37, c], false)

/-- A turn of the loop: what is put out, the format behind it, and the arguments taken. -/
def formatTurn (c : UInt8) (fmt : CString) (a : Arg) : CString × CString × Nat :=
  if c ≠ 37 then ([c], fmt, 0)
  else
    let d := readDirective fmt
    ((convert d a).1, d.rest.tail, if (convert d a).2 then 1 else 0)

/-- `format_to`, where `outChar` does what `out_char` does with a character and `k` arguments
have been taken.  A turn takes a character of the format at least. -/
def formatTo {σ : Type} (outChar : σ → UInt8 → σ) (va : Nat → Arg) : Nat → Nat → CString → σ → σ
  | 0, _, _, x => x
  | _ + 1, _, [], x => x
  | fuel + 1, k, c :: fmt, x =>
      let t := formatTurn c fmt (va k)
      formatTo outChar va fuel (k + t.2.2) t.2.1 (t.1.foldl outChar x)

/-- The characters of a format. -/
def formatted (fmt : CString) (va : Nat → Arg) : CString :=
  formatTo (fun s c => s ++ [c]) va fmt.length 0 fmt []

/-! ## Buffers -/

/-- `dst`, as the bytes stored, `rem` and `count`. -/
structure Buffer where
  dst : CString
  rem : Nat
  count : Int

/-- `out_char` without a stream. -/
def Buffer.outChar (b : Buffer) (c : UInt8) : Buffer :=
  if 1 < b.rem then ⟨b.dst ++ [c], b.rem - 1, int32 (b.count + 1)⟩
  else { b with count := int32 (b.count + 1) }

/-- `vsnprintf`: the bytes stored at `buf`, and what is returned. -/
def vsnprintf (cap : Nat) (fmt : CString) (va : Nat → Arg) : CString × Int :=
  let b := formatTo Buffer.outChar va fmt.length 0 fmt ⟨[], cap, 0⟩
  (if 0 < cap then b.dst ++ [0] else b.dst, b.count)

/-! ## What is expected -/

/-- `out` is what is stored with any capacity that has room for it. -/
def Unlimited (fmt : CString) (va : Nat → Arg) (out : CString) : Prop :=
  ∀ cap, out.length < cap → (vsnprintf cap fmt va).1 = out ++ [0]

/-- No more than `cap` bytes are stored, namely the beginning of the output and a zero, and
`returned` says what is returned for the length of the output. -/
def Bounded (returned : Nat → Int) (fmt : CString) (va : Nat → Arg) : Prop :=
  ∃ out, Unlimited fmt va out ∧ ∀ cap,
    (vsnprintf cap fmt va).1.length ≤ cap ∧
    (0 < cap → (vsnprintf cap fmt va).1 = out.take (min (cap - 1) out.length) ++ [0]) ∧
    (vsnprintf cap fmt va).2 = returned out.length

/-! ## The output -/

theorem foldl_snoc (p s : CString) : p.foldl (fun s c => s ++ [c]) s = s ++ p := by
  induction p generalizing s with
  | nil => simp
  | cons c p ih => simp [ih]

/-- The output goes through `out_char` one character after the other. -/
theorem formatTo_eq {σ : Type} (outChar : σ → UInt8 → σ) (va : Nat → Arg) (fuel k : Nat)
    (fmt : CString) (x : σ) :
    formatTo outChar va fuel k fmt x =
      (formatTo (fun s c => s ++ [c]) va fuel k fmt []).foldl outChar x := by
  have front : ∀ (fuel k : Nat) (fmt s : CString),
      formatTo (fun s c => s ++ [c]) va fuel k fmt s =
        s ++ formatTo (fun s c => s ++ [c]) va fuel k fmt [] := by
    intro fuel
    induction fuel with
    | zero => simp [formatTo]
    | succ fuel ih =>
        intro k fmt s
        cases fmt with
        | nil => simp [formatTo]
        | cons c fmt =>
            rw [formatTo, formatTo, ih, foldl_snoc, foldl_snoc, List.nil_append, List.append_assoc]
            congr 1
            exact (ih _ _ _).symm
  induction fuel generalizing k fmt x with
  | zero => rfl
  | succ fuel ih =>
      cases fmt with
      | nil => rfl
      | cons c fmt =>
          rw [formatTo, formatTo, foldl_snoc, List.nil_append, front, ih, List.foldl_append]

/-- What the buffer holds behind some characters. -/
theorem Buffer.foldl_outChar (out dst : CString) (rem n : Nat) :
    out.foldl Buffer.outChar ⟨dst, rem, int32 n⟩ =
      ⟨dst ++ out.take (rem - 1), rem - min out.length (rem - 1),
        int32 ((n + out.length : Nat) : Int)⟩ := by
  induction out generalizing dst rem n with
  | nil => simp
  | cons c out ih =>
      have count : int32 (int32 n + 1) = int32 ((n + 1 : Nat) : Int) := by
        rw [int32, int32, Int.bmod_add_bmod]
        rfl
      have total : n + 1 + out.length = n + (c :: out).length := by
        rw [List.length_cons]
        omega
      rw [List.foldl_cons, Buffer.outChar]
      by_cases room : 1 < rem
      · obtain ⟨r, rfl⟩ : ∃ r, rem = r + 2 := ⟨rem - 2, by omega⟩
        rw [if_pos room, count, ih, total]
        simp only [List.append_assoc, List.singleton_append, List.length_cons, Buffer.mk.injEq,
          and_true]
        exact ⟨by simp, by omega⟩
      · have none : rem - 1 = 0 := by omega
        rw [if_neg room]
        simp only [count]
        rw [ih, total, none]
        simp

/-- What `vsnprintf` stores and returns. -/
theorem vsnprintf_eq (cap : Nat) (fmt : CString) (va : Nat → Arg) :
    vsnprintf cap fmt va =
      (if 0 < cap then (formatted fmt va).take (cap - 1) ++ [0] else [],
        int32 (formatted fmt va).length) := by
  have start : (⟨[], cap, 0⟩ : Buffer) = ⟨[], cap, int32 ((0 : Nat) : Int)⟩ := rfl
  unfold vsnprintf
  rw [formatTo_eq, ← formatted, start, Buffer.foldl_outChar]
  simp only [List.nil_append, Nat.zero_add, Prod.mk.injEq, and_true]
  split_ifs with pos
  · rfl
  · rw [show cap - 1 = 0 by omega, List.take_zero]

theorem unlimited_formatted (fmt : CString) (va : Nat → Arg) :
    Unlimited fmt va (formatted fmt va) := by
  intro cap room
  rw [vsnprintf_eq]
  simp only [if_pos (Nat.lt_of_le_of_lt (Nat.zero_le _) room)]
  rw [List.take_of_length_le (by omega)]

/-- Any two runs with enough room agree. -/
theorem unlimited_unique {fmt : CString} {va : Nat → Arg} {out : CString}
    (unlimited : Unlimited fmt va out) : out = formatted fmt va := by
  have one := unlimited (out.length + (formatted fmt va).length + 1) (by omega)
  have two := unlimited_formatted fmt va (out.length + (formatted fmt va).length + 1) (by omega)
  rw [one] at two
  exact List.append_cancel_right two

/-- `vsnprintf` is bounded, and returns the length of the output as an `int`. -/
theorem vsnprintf_bounded (fmt : CString) (va : Nat → Arg) :
    Bounded (fun n => int32 n) fmt va := by
  refine ⟨formatted fmt va, unlimited_formatted fmt va, fun cap => ?_⟩
  rw [vsnprintf_eq]
  refine ⟨?_, fun pos => ?_, by dsimp only⟩
  · dsimp only
    split_ifs with pos
    · rw [List.length_append, List.length_take, List.length_singleton]
      omega
    · exact Nat.zero_le _
  · dsimp only
    rw [if_pos pos]
    rcases Nat.le_total (cap - 1) (formatted fmt va).length with le | ge
    · rw [Nat.min_eq_left le]
    · rw [Nat.min_eq_right ge, List.take_of_length_le ge, List.take_length]

/-- The output of `%s` is the text. -/
theorem formatted_text (va : Nat → Arg) {t : CString} (eq : (va 0).text = some t) :
    formatted (text "%s") va = t := by
  have out : formatted (text "%s") va =
      ((va 0).text.getD (text "(null)")).foldl (fun s c => s ++ [c]) [] := rfl
  rw [out, foldl_snoc, eq, List.nil_append, Option.getD_some]

end NTux.Libc
