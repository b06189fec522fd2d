import NTux.Lib.Packed
import NTux.Libc.Format
import Mathlib.Tactic.IntervalCases

/-!
# UTF-8

The five functions of `libc/utf-8.c` on a text in memory, which a NUL ends.

* `textDecodeUtf8`, `textEncodeUtf8`, `textNextUtf8`, `textPrevUtf8`, `textStrlenUtf8` — the
  code.
* `Utf8Laws` — what is expected of them, with the value returned for a number of code points.
* `utf8_laws` — it holds if the number is taken as an `int`.
-/

namespace NTux.Libc

open NTux.Fs NTux.Lib NTux.Lib.Bytes

/-! ## The code -/

/-- `text_decode_utf8`: the code point, and the advance. -/
def textDecodeUtf8 (u : Bytes) (o : Nat) : Nat × Nat :=
  let b (i : Nat) : Nat := (u (o + i)).toNat
  if b 0 = 0 then (0, 0)
  else if b 0 &&& 0x80 = 0 then (b 0, 1)
  else if b 0 &&& 0xE0 = 0xC0 ∧ b 1 &&& 0xC0 = 0x80 then
    ((b 0 &&& 0x1F) <<< 6 ||| b 1 &&& 0x3F, 2)
  else if b 0 &&& 0xF0 = 0xE0 ∧ b 1 &&& 0xC0 = 0x80 ∧ b 2 &&& 0xC0 = 0x80 then
    ((b 0 &&& 0x0F) <<< 12 ||| (b 1 &&& 0x3F) <<< 6 ||| b 2 &&& 0x3F, 3)
  else if b 0 &&& 0xF8 = 0xF0 ∧ b 1 &&& 0xC0 = 0x80 ∧ b 2 &&& 0xC0 = 0x80 ∧
      b 3 &&& 0xC0 = 0x80 then
    ((b 0 &&& 0x07) <<< 18 ||| (b 1 &&& 0x3F) <<< 12 ||| (b 2 &&& 0x3F) <<< 6 ||| b 3 &&& 0x3F, 4)
  else (0xFFFD, 1)

/-- A byte of the output, cut to eight bits. -/
def outByte (v : Nat) : UInt8 := UInt8.ofNat v

/-- `text_encode_utf8`: the bytes it writes, whose number it returns. -/
def textEncodeUtf8 (cp : Nat) : CString :=
  if cp ≤ 0x7F then [outByte cp]
  else if cp ≤ 0x7FF then [outByte (0xC0 ||| cp >>> 6), outByte (0x80 ||| cp &&& 0x3F)]
  else if cp ≤ 0xFFFF then
    [outByte (0xE0 ||| cp >>> 12), outByte (0x80 ||| cp >>> 6 &&& 0x3F),
      outByte (0x80 ||| cp &&& 0x3F)]
  else if cp ≤ 0x10FFFF then
    [outByte (0xF0 ||| cp >>> 18), outByte (0x80 ||| cp >>> 12 &&& 0x3F),
      outByte (0x80 ||| cp >>> 6 &&& 0x3F), outByte (0x80 ||| cp &&& 0x3F)]
  else [0xEF, 0xBF, 0xBD]

/-- `text_next_utf8`. -/
def textNextUtf8 (u : Bytes) (o : Nat) : Nat :=
  if u o = 0 then o else o + (textDecodeUtf8 u o).2

/-- The loop of `text_prev_utf8`. -/
def prevLoop (u : Bytes) (start : Nat) : Nat → Nat
  | 0 => 0
  | o + 1 => if start < o + 1 ∧ (u (o + 1)).toNat &&& 0xC0 = 0x80 then prevLoop u start o else o + 1

/-- `text_prev_utf8`. -/
def textPrevUtf8 (u : Bytes) (start o : Nat) : Nat :=
  if o ≤ start then start else prevLoop u start (o - 1)

/-- The loop of `text_strlen_utf8`, for at most `fuel` tests of its condition. -/
def strlenLoop (u : Bytes) : Nat → Nat → Int → Option Int
  | 0, _, _ => none
  | fuel + 1, o, count =>
      if u o = 0 then some count
      else strlenLoop u fuel (o + (textDecodeUtf8 u o).2) (int32 (count + 1))

/-- `text_strlen_utf8`. -/
def textStrlenUtf8 (u : Bytes) (o fuel : Nat) : Option Int := strlenLoop u fuel o 0

/-! ## What is expected -/

/-- A code point that a text can hold. -/
def IsCodePoint (cp : Nat) : Prop := 0 < cp ∧ cp ≤ 0x10FFFF

/-- The text of code points. -/
def encoded (cps : List Nat) : CString := cps.flatMap textEncodeUtf8

/-- The text `s` and a NUL stand in memory from `o` on. -/
structure TextAt (u : Bytes) (o : Nat) (s : CString) : Prop where
  bytes : slice u o s.length = s
  stop : u (o + s.length) = 0

/-- What is expected of the functions, with `counted` as the value returned for a number of
code points. -/
structure Utf8Laws (counted : Nat → Int) : Prop where
  roundTrip : ∀ cp, IsCodePoint cp → ∀ u o,
    slice u o (textEncodeUtf8 cp).length = textEncodeUtf8 cp →
    textDecodeUtf8 u o = (cp, (textEncodeUtf8 cp).length)
  advance : ∀ u s o, TextAt u o s → (∀ c ∈ s, c ≠ 0) → ∀ i ≤ s.length,
    i + (textDecodeUtf8 u (o + i)).2 ≤ s.length ∧
      (i < s.length → 0 < (textDecodeUtf8 u (o + i)).2)
  ends : ∀ u s o, TextAt u o s → (∀ c ∈ s, c ≠ 0) →
    ∃ n, ∀ fuel > s.length, textStrlenUtf8 u o fuel = some n
  counts : ∀ cps, (∀ cp ∈ cps, IsCodePoint cp) → ∀ u o, TextAt u o (encoded cps) →
    ∀ fuel > cps.length, textStrlenUtf8 u o fuel = some (counted cps.length)
  undoes : ∀ front cp back, (∀ c ∈ front ++ cp :: back, IsCodePoint c) → ∀ u o,
    TextAt u o (encoded (front ++ cp :: back)) →
    textNextUtf8 u (o + (encoded front).length) = o + (encoded (front ++ [cp])).length ∧
      textPrevUtf8 u o (o + (encoded (front ++ [cp])).length) = o + (encoded front).length

/-! ## One code point -/

theorem ascii_byte : ∀ v < 128, (outByte v).toNat = v ∧ v &&& 0x80 = 0 := by decide

theorem tail_byte : ∀ v < 64, (outByte (0x80 ||| v)).toNat &&& 0xC0 = 0x80 ∧
    (outByte (0x80 ||| v)).toNat &&& 0x3F = v := by decide

/-- The first of two bytes. -/
theorem lead_two : ∀ v < 32, (outByte (0xC0 ||| v)).toNat &&& 0x80 ≠ 0 ∧
    (outByte (0xC0 ||| v)).toNat &&& 0xE0 = 0xC0 ∧ (outByte (0xC0 ||| v)).toNat &&& 0x1F = v := by
  decide

/-- The first of three bytes. -/
theorem lead_three : ∀ v < 16, (outByte (0xE0 ||| v)).toNat &&& 0x80 ≠ 0 ∧
    (outByte (0xE0 ||| v)).toNat &&& 0xE0 ≠ 0xC0 ∧
    (outByte (0xE0 ||| v)).toNat &&& 0xF0 = 0xE0 ∧ (outByte (0xE0 ||| v)).toNat &&& 0x0F = v := by
  decide

/-- The first of four bytes. -/
theorem lead_four : ∀ v < 8, (outByte (0xF0 ||| v)).toNat &&& 0x80 ≠ 0 ∧
    (outByte (0xF0 ||| v)).toNat &&& 0xE0 ≠ 0xC0 ∧ (outByte (0xF0 ||| v)).toNat &&& 0xF0 ≠ 0xE0 ∧
    (outByte (0xF0 ||| v)).toNat &&& 0xF8 = 0xF0 ∧ (outByte (0xF0 ||| v)).toNat &&& 0x07 = v := by
  decide

theorem low_lt (v : Nat) : v &&& 0x3F < 64 := Nat.lt_succ_of_le Nat.and_le_right

/-- A number is put together from its low six bits and the rest. -/
theorem join_six (v : Nat) : v >>> 6 <<< 6 ||| v &&& 0x3F = v := by
  rw [← Nat.shiftLeft_add_eq_or_of_lt (low_lt v), show (0x3F : Nat) = 2 ^ 6 - 1 from rfl,
    Nat.and_two_pow_sub_one_eq_mod, Nat.shiftLeft_eq, Nat.shiftRight_eq_div_pow]
  exact Nat.div_add_mod' v (2 ^ 6)

theorem join_twelve (v : Nat) :
    v >>> 12 <<< 12 ||| (v >>> 6 &&& 0x3F) <<< 6 ||| v &&& 0x3F = v := by
  have rest := congrArg (· <<< 6) (join_six (v >>> 6))
  simp only [Nat.shiftLeft_or_distrib, ← Nat.shiftRight_add, ← Nat.shiftLeft_add] at rest
  rw [rest]
  exact join_six v

theorem join_eighteen (v : Nat) : v >>> 18 <<< 18 ||| (v >>> 12 &&& 0x3F) <<< 12 |||
    (v >>> 6 &&& 0x3F) <<< 6 ||| v &&& 0x3F = v := by
  have rest := congrArg (· <<< 6) (join_twelve (v >>> 6))
  simp only [Nat.shiftLeft_or_distrib, ← Nat.shiftRight_add, ← Nat.shiftLeft_add] at rest
  rw [rest]
  exact join_six v

theorem textDecodeUtf8_encode {cp : Nat} (point : IsCodePoint cp) {u : Bytes} {o : Nat}
    (held : slice u o (textEncodeUtf8 cp).length = textEncodeUtf8 cp) :
    textDecodeUtf8 u o = (cp, (textEncodeUtf8 cp).length) := by
  obtain ⟨pos, most⟩ := point
  unfold textEncodeUtf8 at held ⊢
  split at held
  next le =>
    have ascii := ascii_byte cp (by omega)
    have b0 : u o = outByte cp := by simpa [slice, List.range_succ] using held
    rw [if_pos le]
    unfold textDecodeUtf8
    simp only [Nat.add_zero, b0, ascii.1]
    rw [if_neg (by omega), if_pos ascii.2]
    rfl
  next wide =>
    rw [if_neg wide]
    split at held
    next le =>
      have lead := lead_two (cp >>> 6) (by rw [Nat.shiftRight_eq_div_pow]; omega)
      have tail := tail_byte (cp &&& 0x3F) (low_lt cp)
      have bs : u o = outByte (0xC0 ||| cp >>> 6) ∧ u (o + 1) = outByte (0x80 ||| cp &&& 0x3F) := by
        simpa [slice, List.range_succ] using held
      rw [if_pos le]
      unfold textDecodeUtf8
      simp only [Nat.add_zero, bs]
      rw [if_neg fun zero => lead.1 (by rw [zero]; rfl), if_neg lead.1,
        if_pos ⟨lead.2.1, tail.1⟩, lead.2.2, tail.2, join_six]
      rfl
    next wide =>
      rw [if_neg wide]
      split at held
      next le =>
        have lead := lead_three (cp >>> 12) (by rw [Nat.shiftRight_eq_div_pow]; omega)
        have mid := tail_byte (cp >>> 6 &&& 0x3F) (low_lt _)
        have tail := tail_byte (cp &&& 0x3F) (low_lt cp)
        have bs : u o = outByte (0xE0 ||| cp >>> 12) ∧
            u (o + 1) = outByte (0x80 ||| cp >>> 6 &&& 0x3F) ∧
            u (o + 2) = outByte (0x80 ||| cp &&& 0x3F) := by
          simpa [slice, List.range_succ] using held
        rw [if_pos le]
        unfold textDecodeUtf8
        simp only [Nat.add_zero, bs]
        rw [if_neg fun zero => lead.1 (by rw [zero]; rfl), if_neg lead.1,
          if_neg fun two => lead.2.1 two.1, if_pos ⟨lead.2.2.1, mid.1, tail.1⟩, lead.2.2.2, mid.2,
          tail.2, join_twelve]
        rfl
      next wide =>
        have lead := lead_four (cp >>> 18) (by rw [Nat.shiftRight_eq_div_pow]; omega)
        have high := tail_byte (cp >>> 12 &&& 0x3F) (low_lt _)
        have mid := tail_byte (cp >>> 6 &&& 0x3F) (low_lt _)
        have tail := tail_byte (cp &&& 0x3F) (low_lt cp)
        have bs : u o = outByte (0xF0 ||| cp >>> 18) ∧
            u (o + 1) = outByte (0x80 ||| cp >>> 12 &&& 0x3F) ∧
            u (o + 2) = outByte (0x80 ||| cp >>> 6 &&& 0x3F) ∧
            u (o + 3) = outByte (0x80 ||| cp &&& 0x3F) := by
          simpa [slice, List.range_succ] using held
        rw [if_neg wide, if_pos most]
        unfold textDecodeUtf8
        simp only [Nat.add_zero, bs]
        rw [if_neg fun zero => lead.1 (by rw [zero]; rfl), if_neg lead.1,
          if_neg fun two => lead.2.1 two.1, if_neg fun three => lead.2.2.1 three.1,
          if_pos ⟨lead.2.2.2.1, high.1, mid.1, tail.1⟩, lead.2.2.2.2, high.2, mid.2, tail.2,
          join_eighteen]
        rfl

/-- A byte that is not the first of its code point. -/
def IsTail (c : UInt8) : Prop := c.toNat &&& 0xC0 = 0x80

theorem IsTail.ne_zero {c : UInt8} (tail : IsTail c) : c ≠ 0 := by
  rintro rfl
  exact absurd tail (by unfold IsTail; decide)

/-- The bytes of a code point: a first one, and others that are not. -/
theorem textEncodeUtf8_shape {cp : Nat} (point : IsCodePoint cp) :
    ∃ c cs, textEncodeUtf8 cp = c :: cs ∧ ¬ IsTail c ∧ c ≠ 0 ∧ ∀ d ∈ cs, IsTail d := by
  obtain ⟨pos, most⟩ := point
  have tail (v : Nat) : IsTail (outByte (0x80 ||| v &&& 0x3F)) := (tail_byte _ (low_lt v)).1
  unfold textEncodeUtf8
  split
  next le =>
    have ascii := ascii_byte cp (by omega)
    refine ⟨_, _, rfl, ?_, ?_, by simp⟩
    · have plain : ∀ v < 128, v &&& 0xC0 ≠ 0x80 := by decide
      unfold IsTail
      rw [ascii.1]
      exact plain cp (by omega)
    · intro zero
      rw [zero] at ascii
      exact absurd ascii.1.symm (by simpa using pos.ne')
  next wide =>
    split
    next le =>
      have lead : ∀ v < 32, ¬ (outByte (0xC0 ||| v)).toNat &&& 0xC0 = 0x80 ∧
        outByte (0xC0 ||| v) ≠ 0 := by decide
      obtain ⟨first, some_⟩ := lead (cp >>> 6) (by rw [Nat.shiftRight_eq_div_pow]; omega)
      exact ⟨_, _, rfl, first, some_, by simp [tail]⟩
    next wide =>
      split
      next le =>
        have lead : ∀ v < 16, ¬ (outByte (0xE0 ||| v)).toNat &&& 0xC0 = 0x80 ∧
          outByte (0xE0 ||| v) ≠ 0 := by decide
        obtain ⟨first, some_⟩ := lead (cp >>> 12) (by rw [Nat.shiftRight_eq_div_pow]; omega)
        exact ⟨_, _, rfl, first, some_, by simp [tail]⟩
      next wide =>
        have lead : ∀ v < 8, ¬ (outByte (0xF0 ||| v)).toNat &&& 0xC0 = 0x80 ∧
          outByte (0xF0 ||| v) ≠ 0 := by decide
        obtain ⟨first, some_⟩ := lead (cp >>> 18) (by rw [Nat.shiftRight_eq_div_pow]; omega)
        exact ⟨_, _, rfl, first, some_, by simp [tail]⟩

/-- The decoder goes on by one byte at least, and over no NUL. -/
theorem textDecodeUtf8_advance {u : Bytes} {o : Nat} (more : u o ≠ 0) :
    0 < (textDecodeUtf8 u o).2 ∧ ∀ i < (textDecodeUtf8 u o).2, u (o + i) ≠ 0 := by
  have ends : (u (o + 0)).toNat ≠ 0 := fun zero => more (UInt8.toNat_inj.1 zero)
  unfold textDecodeUtf8
  dsimp only
  rw [if_neg ends]
  split_ifs with one two three four
  · exact ⟨Nat.one_pos, fun i lt => by rw [Nat.lt_one_iff.1 lt]; exact more⟩
  · refine ⟨Nat.succ_pos _, fun i lt => ?_⟩
    replace lt : i < _ := lt
    interval_cases i
    · exact more
    · exact IsTail.ne_zero two.2
  · refine ⟨Nat.succ_pos _, fun i lt => ?_⟩
    replace lt : i < _ := lt
    interval_cases i
    · exact more
    · exact IsTail.ne_zero three.2.1
    · exact IsTail.ne_zero three.2.2
  · refine ⟨Nat.succ_pos _, fun i lt => ?_⟩
    replace lt : i < _ := lt
    interval_cases i
    · exact more
    · exact IsTail.ne_zero four.2.1
    · exact IsTail.ne_zero four.2.2.1
    · exact IsTail.ne_zero four.2.2.2
  · exact ⟨Nat.one_pos, fun i lt => by rw [Nat.lt_one_iff.1 lt]; exact more⟩

/-! ## Texts -/

variable {u : Bytes} {o : Nat} {s t : CString} {cps : List Nat}

theorem TextAt.at (text : TextAt u o s) {i : Nat} (lt : i < s.length) : u (o + i) = s[i] := by
  have inside : i < (slice u o s.length).length := by rwa [slice_length]
  have same : (slice u o s.length)[i] = s[i] := by
    simp only [text.bytes]
  simpa [slice] using same

theorem TextAt.drop (text : TextAt u o (s ++ t)) : TextAt u (o + s.length) t where
  bytes := by
    have all := text.bytes
    rw [List.length_append, slice_add] at all
    exact (List.append_inj all slice_length).2
  stop := by
    have all := text.stop
    rwa [List.length_append, ← Nat.add_assoc] at all

theorem TextAt.left (text : TextAt u o (s ++ t)) : slice u o s.length = s := by
  have all := text.bytes
  rw [List.length_append, slice_add] at all
  exact (List.append_inj all slice_length).1

theorem TextAt.advance (text : TextAt u o s) (clean : ∀ c ∈ s, c ≠ 0) {i : Nat}
    (le : i ≤ s.length) :
    i + (textDecodeUtf8 u (o + i)).2 ≤ s.length ∧
      (i < s.length → 0 < (textDecodeUtf8 u (o + i)).2) := by
  rcases Nat.lt_or_eq_of_le le with lt | rfl
  · have more : u (o + i) ≠ 0 := by
      rw [text.at lt]
      exact clean _ (List.getElem_mem lt)
    obtain ⟨pos, stays⟩ := textDecodeUtf8_advance more
    refine ⟨?_, fun _ => pos⟩
    by_contra past
    refine stays (s.length - i) (by omega) ?_
    rw [Nat.add_assoc, Nat.add_sub_of_le le]
    exact text.stop
  · have done : textDecodeUtf8 u (o + s.length) = (0, 0) := by
      unfold textDecodeUtf8
      simp [text.stop]
    rw [done]
    exact ⟨le_refl _, fun lt => absurd lt (Nat.lt_irrefl _)⟩

theorem strlenLoop_ends (text : TextAt u o s) (clean : ∀ c ∈ s, c ≠ 0) :
    ∀ left i count, i ≤ s.length → s.length - i ≤ left → ∃ n, ∀ fuel > left,
      strlenLoop u fuel (o + i) count = some n := by
  intro left
  induction left with
  | zero =>
      intro i count le none_left
      have here : i = s.length := by omega
      refine ⟨count, fun fuel more => ?_⟩
      obtain ⟨fuel, rfl⟩ := Nat.exists_eq_add_of_lt more
      rw [Nat.zero_add, strlenLoop, here, if_pos text.stop]
  | succ left ih =>
      intro i count le short
      obtain ⟨inside, pos⟩ := text.advance clean le
      rcases Nat.lt_or_eq_of_le le with lt | rfl
      · have more : u (o + i) ≠ 0 := by
          rw [text.at lt]
          exact clean _ (List.getElem_mem lt)
        have forward := pos lt
        obtain ⟨n, rest⟩ := ih (i + (textDecodeUtf8 u (o + i)).2) (int32 (count + 1)) inside
          (by omega)
        refine ⟨n, fun fuel enough => ?_⟩
        obtain ⟨fuel, rfl⟩ := Nat.exists_eq_succ_of_ne_zero (Nat.ne_of_gt (Nat.zero_lt_of_lt enough))
        rw [strlenLoop, if_neg more, Nat.add_assoc]
        exact rest fuel (by omega)
      · refine ⟨count, fun fuel enough => ?_⟩
        obtain ⟨fuel, rfl⟩ := Nat.exists_eq_succ_of_ne_zero (Nat.ne_of_gt (Nat.zero_lt_of_lt enough))
        rw [strlenLoop, if_pos text.stop]

theorem int32_succ (n : Int) : int32 (int32 n + 1) = int32 (n + 1) := by
  unfold int32
  exact Int.bmod_add_bmod

theorem encoded_cons (cp : Nat) : encoded (cp :: cps) = textEncodeUtf8 cp ++ encoded cps := rfl

theorem encoded_append (front back : List Nat) :
    encoded (front ++ back) = encoded front ++ encoded back := List.flatMap_append

/-- One code point is counted for each that the text was made of. -/
theorem strlenLoop_encoded (points : ∀ cp ∈ cps, IsCodePoint cp) {o : Nat} {n : Int}
    (text : TextAt u o (encoded cps)) {fuel : Nat} (enough : cps.length < fuel) :
    strlenLoop u fuel o (int32 n) = some (int32 (n + cps.length)) := by
  induction cps generalizing o n fuel with
  | nil =>
      obtain ⟨fuel, rfl⟩ := Nat.exists_eq_succ_of_ne_zero (Nat.ne_of_gt enough)
      have ended : u o = 0 := text.stop
      rw [strlenLoop, if_pos ended]
      simp
  | cons cp cps ih =>
      obtain ⟨fuel, rfl⟩ := Nat.exists_eq_succ_of_ne_zero (Nat.ne_of_gt (Nat.zero_lt_of_lt enough))
      rw [encoded_cons] at text
      have point := points cp List.mem_cons_self
      obtain ⟨c, cs, shape, -, some_, -⟩ := textEncodeUtf8_shape point
      have first : u o = c := by
        have := text.at (i := 0) (by simp [shape])
        simpa [shape] using this
      rw [strlenLoop, if_neg (by rw [first]; exact some_), textDecodeUtf8_encode point text.left,
        int32_succ, ih (fun c mem => points c (List.mem_cons_of_mem _ mem)) text.drop
          (by simpa using enough)]
      congr 2
      push_cast [List.length_cons]
      omega

theorem prevLoop_eq {start : Nat} (from_ : start ≤ o) (first : ¬ IsTail (u o)) (k : Nat)
    (tails : ∀ j < k, IsTail (u (o + j + 1))) : prevLoop u start (o + k) = o := by
  induction k with
  | zero =>
      cases o with
      | zero => rfl
      | succ o =>
          rw [Nat.add_zero, prevLoop, if_neg]
          exact fun back => first back.2
  | succ k ih =>
      rw [← Nat.add_assoc, prevLoop, if_pos ⟨by omega, tails k (Nat.lt_succ_self k)⟩]
      exact ih fun j lt => tails j (Nat.lt_succ_of_lt lt)

/-- A step forward over a code point, and the step back. -/
theorem next_prev {front back : List Nat} {cp : Nat}
    (points : ∀ c ∈ front ++ cp :: back, IsCodePoint c)
    (text : TextAt u o (encoded (front ++ cp :: back))) :
    textNextUtf8 u (o + (encoded front).length) = o + (encoded (front ++ [cp])).length ∧
      textPrevUtf8 u o (o + (encoded (front ++ [cp])).length) = o + (encoded front).length := by
  have point := points cp (by simp)
  rw [encoded_append, encoded_cons] at text
  have here := text.drop
  have length : (encoded (front ++ [cp])).length =
      (encoded front).length + (textEncodeUtf8 cp).length := by
    rw [encoded_append, List.length_append]
    simp [encoded]
  obtain ⟨c, cs, shape, first, some_, tails⟩ := textEncodeUtf8_shape point
  have at_ (i : Nat) (lt : i < (c :: cs).length) :
      u (o + (encoded front).length + i) = (c :: cs)[i] := by
    have wide : i < (textEncodeUtf8 cp ++ encoded back).length := by
      rw [List.length_append, shape]
      omega
    rw [here.at wide]
    simp only [shape, List.getElem_append_left lt]
  have lead : u (o + (encoded front).length) = c := at_ 0 (Nat.succ_pos _)
  constructor
  · unfold textNextUtf8
    rw [if_neg (by rw [lead]; exact some_), textDecodeUtf8_encode point here.left, length,
      Nat.add_assoc]
  · have width : (textEncodeUtf8 cp).length = cs.length + 1 := by rw [shape, List.length_cons]
    unfold textPrevUtf8
    rw [if_neg (by omega), length, width, ← Nat.add_assoc, ← Nat.add_assoc, Nat.add_sub_cancel]
    refine prevLoop_eq (Nat.le_add_right _ _) (by rw [lead]; exact first) cs.length fun j lt => ?_
    have tail := at_ (j + 1) (by simpa using lt)
    rw [Nat.add_assoc, tail, List.getElem_cons_succ]
    exact tails _ (List.getElem_mem lt)

/-- For every code point, every text and every string of code points, the functions are what
is expected, if the number of code points is taken as an `int`. -/
theorem utf8_laws : Utf8Laws fun n => int32 n where
  roundTrip _ point _ _ held := textDecodeUtf8_encode point held
  advance _ _ _ text clean _ le := text.advance clean le
  ends u s o text clean := by
    obtain ⟨n, ends⟩ := strlenLoop_ends text clean s.length 0 0 (Nat.zero_le _) (Nat.sub_le _ _)
    exact ⟨n, ends⟩
  counts cps points u o text fuel enough := by
    have counted := strlenLoop_encoded points (n := 0) text enough
    rwa [Int.zero_add] at counted
  undoes _ _ _ points _ _ text := next_prev points text

/-- Of `2 ^ 31` letters the count is negative. -/
theorem count_wraps : ¬ Utf8Laws fun n => n := by
  intro laws
  have points : ∀ cp ∈ List.replicate (2 ^ 31) 97, IsCodePoint cp := by
    intro cp mem
    rw [List.eq_of_mem_replicate mem]
    exact ⟨by decide, by decide⟩
  have held : TextAt (Packed.ofList (encoded (List.replicate (2 ^ 31) 97))) 0
      (encoded (List.replicate (2 ^ 31) 97)) := by
    refine ⟨slice_eq_list fun i _ => by rw [Nat.zero_add]; rfl, ?_⟩
    rw [Nat.zero_add]
    exact List.getD_eq_default _ _ (le_refl _)
  have plain := laws.counts _ points _ _ held _ (Nat.lt_succ_self _)
  rw [utf8_laws.counts _ points _ _ held _ (Nat.lt_succ_self _), List.length_replicate] at plain
  exact absurd (Option.some.inj plain) (by decide)

end NTux.Libc
