import NTux.Fat.Directory
import Mathlib.Data.List.GetD

/-!
# The round trip of a long name

`fat_create_entry` stores the parts of a long name from the last one to the first, and the
walks push them in that order.  When the parts from `k` on have been pushed the accumulator
has the characters from `13 * k` on and the bits of these parts (`PushedFrom`); when all of
them have been pushed it has the name.
-/

namespace NTux.Fat

open NTux.Fs

/-- The characters that a long name keeps as they are. -/
def Printable (name : CString) : Prop := ∀ c ∈ name, 32 ≤ c ∧ c ≤ 126

instance (name : CString) : Decidable (Printable name) := inferInstanceAs (Decidable (∀ c ∈ name, _))

section RoundTrip

variable {name : CString}

/-! ## One part -/

theorem printable_wide {c : UInt8} (low : 32 ≤ c) (high : c ≤ 126) :
    c.toUInt16 ≠ 0 ∧ c.toUInt16 ≠ 0xFFFF ∧ 32 ≤ c.toUInt16 ∧ c.toUInt16 ≤ 126 := by
  have lowNat : 32 ≤ c.toNat := low
  have highNat : c.toNat ≤ 126 := high
  have value : c.toUInt16.toNat = c.toNat := UInt8.toNat_toUInt16 c
  refine ⟨fun eq => ?_, fun eq => ?_, ?_, ?_⟩
  · rw [eq] at value
    simp at value
    omega
  · rw [eq] at value
    simp at value
    omega
  · show 32 ≤ c.toUInt16.toNat
    omega
  · show c.toUInt16.toNat ≤ 126
    omega

/-- A character of the name is stored as it is, and nothing is stored behind the name. -/
theorem fatLfnPutChar_lfnChar (printable : Printable name) (short : name.length ≤ vfsMaxName - 1)
    (stored : Nat → UInt8) (pos : Nat) :
    fatLfnPutChar stored pos (lfnChar name pos) =
      if pos < name.length then Function.update stored pos (name.getD pos 0) else stored := by
  unfold fatLfnPutChar lfnChar
  split
  next inside =>
    have mem : name.getD pos 0 ∈ name := by
      rw [List.getD_eq_getElem _ _ inside]
      exact List.getElem_mem inside
    obtain ⟨low, high⟩ := printable _ mem
    obtain ⟨notEnd, notFill, low', high'⟩ := printable_wide low high
    rw [if_neg (by
      rintro (out | zero | fill)
      · omega
      · exact notEnd zero
      · exact notFill fill), if_pos ⟨low', high'⟩, UInt8.toUInt8_toUInt16]
  next outside =>
    refine if_pos (.inr ?_)
    split
    · exact .inl rfl
    · exact .inr rfl

/-- The characters of a part are stored at their places. -/
theorem putPart_eq (printable : Printable name) (short : name.length ≤ vfsMaxName - 1)
    (stored : Nat → UInt8) (start : Nat) :
    putPart stored start ((List.range lfnChars).map fun i => lfnChar name (start + i)) =
      fun p => if start ≤ p ∧ p < start + lfnChars ∧ p < name.length then name.getD p 0
        else stored p := by
  have upTo : ∀ n ≤ lfnChars,
      (List.range n).foldl (fun stored i => fatLfnPutChar stored (start + i)
        (((List.range lfnChars).map fun i => lfnChar name (start + i)).getD i 0)) stored =
      fun p => if start ≤ p ∧ p < start + n ∧ p < name.length then name.getD p 0
        else stored p := by
    intro n le
    induction n with
    | zero =>
        funext p
        rw [if_neg (by omega)]
        rfl
    | succ n ih =>
        rw [List.range_succ, List.foldl_append, List.foldl_cons, List.foldl_nil, ih (by omega)]
        have char : ((List.range lfnChars).map fun i => lfnChar name (start + i)).getD n 0 =
            lfnChar name (start + n) := by
          rw [List.getD_eq_getElem _ _ (by simpa using Nat.lt_of_succ_le le), List.getElem_map, List.getElem_range]
        rw [char, fatLfnPutChar_lfnChar printable short]
        funext p
        rcases eq_or_ne p (start + n) with rfl | ne
        · by_cases inside : start + n < name.length
          · rw [if_pos inside, Function.update_self, if_pos ⟨by omega, by omega, inside⟩]
          · rw [if_neg inside, if_neg (by omega), if_neg (by omega)]
        · have same : (start ≤ p ∧ p < start + n ∧ p < name.length) ↔
              (start ≤ p ∧ p < start + (n + 1) ∧ p < name.length) := by omega
          by_cases inside : start + n < name.length
          · rw [if_pos inside, Function.update_of_ne ne]
            simp only [same]
          · rw [if_neg inside]
            simp only [same]
  exact upTo lfnChars (Nat.le_refl _)

/-! ## All parts -/

/-- The parts from `k` on have been pushed. -/
structure PushedFrom (name : CString) (k : Nat) (a : LfnAccum) : Prop where
  active : a.active = true
  expected : a.expectedParts = fatLfnEntryCountForName name
  mask : a.seenPartsMask = 2 ^ fatLfnEntryCountForName name - 2 ^ k
  chars : ∀ p, a.name p = if k * lfnChars ≤ p ∧ p < name.length then name.getD p 0 else 0

/-- The order byte tells the part, and whether it is the last one. -/
theorem lfnOrder_read : ∀ count ≤ 5, ∀ seg < count,
    (lfnOrder count seg &&& 0x1F).toNat = seg + 1 ∧
      (lfnOrder count seg &&& 0x40 ≠ 0 ↔ seg + 1 = count) := by
  decide +kernel

theorem two_pow_or (k n : Nat) (lt : k < n) : (2 ^ n - 2 ^ (k + 1)) ||| 2 ^ k = 2 ^ n - 2 ^ k := by
  have le : 2 ^ (k + 1) ≤ 2 ^ n := Nat.pow_le_pow_right (by decide) lt
  have split : 2 ^ n - 2 ^ (k + 1) = 2 ^ (k + 1) * (2 ^ (n - (k + 1)) - 1) := by
    rw [Nat.mul_sub, Nat.mul_one, ← Nat.pow_add]
    congr 2
    omega
  have apart : 2 ^ k < 2 ^ (k + 1) := Nat.pow_lt_pow_right (by decide) (Nat.lt_succ_self k)
  rw [split, ← Nat.two_pow_add_eq_or_of_lt apart, ← split]
  rw [Nat.pow_succ] at le ⊢
  omega

theorem count_le (short : name.length ≤ vfsMaxName - 1) : fatLfnEntryCountForName name ≤ 5 := by
  unfold fatLfnEntryCountForName lfnChars
  unfold vfsMaxName at short
  omega

/-- The part that is pushed next. -/
theorem PushedFrom.push {a : LfnAccum} {k : Nat} (printable : Printable name)
    (short : name.length ≤ vfsMaxName - 1) (sum : UInt8)
    (before : k + 1 = fatLfnEntryCountForName name ∨ PushedFrom name (k + 1) a)
    (lt : k < fatLfnEntryCountForName name) :
    PushedFrom name k (fatLfnPush a (fatLfnWriteEntry
      (lfnOrder (fatLfnEntryCountForName name) k) sum name (k * lfnChars))) := by
  obtain ⟨idx, last⟩ := lfnOrder_read _ (count_le short) k lt
  have few := count_le short
  have all : name.length ≤ fatLfnEntryCountForName name * lfnChars := by
    unfold fatLfnEntryCountForName lfnChars
    omega
  unfold fatLfnPush fatLfnWriteEntry
  dsimp only
  rw [idx, if_neg (by omega), Nat.add_sub_cancel]
  by_cases isLast : k + 1 = fatLfnEntryCountForName name
  · -- the first part that is pushed resets the accumulator
    rw [if_pos (last.2 isLast)]
    dsimp only
    rw [putPart_eq printable short]
    refine ⟨rfl, isLast, ?_, fun p => ?_⟩
    · show 0 ||| 2 ^ k = _
      rw [Nat.zero_or, ← isLast, Nat.pow_succ]
      omega
    · show (if _ then _ else (0 : UInt8)) = _
      rw [← isLast, Nat.succ_mul] at all
      congr 1
      exact propext (by omega)
  · have pushed := before.resolve_left isLast
    rw [if_neg fun flag => isLast (last.1 flag), pushed.active, pushed.expected]
    have opens : (!true || decide (fatLfnEntryCountForName name = 0) ||
        decide (fatLfnEntryCountForName name < k + 1)) = false := by
      simp
      omega
    simp only [opens, Bool.false_eq_true, if_false]
    rw [putPart_eq printable short]
    refine ⟨pushed.active, pushed.expected, ?_, fun p => ?_⟩
    · show a.seenPartsMask ||| 2 ^ k = _
      rw [pushed.mask, two_pow_or _ _ lt]
    · show (if _ then _ else a.name p) = _
      rw [pushed.chars p, Nat.succ_mul]
      split
      next here => rw [if_pos ⟨here.1, here.2.2⟩]
      next away =>
        congr 1
        exact propext (by omega)

/-- Pushing the parts below `k` after those from `k` on. -/
theorem PushedFrom.pushAll {a : LfnAccum} (printable : Printable name)
    (short : name.length ≤ vfsMaxName - 1) (sum : UInt8) (k : Nat)
    (le : k ≤ fatLfnEntryCountForName name) (some_ : 0 < fatLfnEntryCountForName name)
    (before : k = fatLfnEntryCountForName name ∨ PushedFrom name k a) :
    PushedFrom name 0 (((List.range k).map fun seg => fatLfnWriteEntry
      (lfnOrder (fatLfnEntryCountForName name) seg) sum name (seg * lfnChars)).reverse.foldl
        fatLfnPush a) := by
  induction k generalizing a with
  | zero => exact before.resolve_left (Nat.ne_of_lt some_)
  | succ k ih =>
      rw [List.range_succ, List.map_append, List.reverse_append]
      show PushedFrom name 0 (List.foldl fatLfnPush (fatLfnPush a _) _)
      exact ih (by omega) (.inr (PushedFrom.push printable short sum before le))

theorem PushedFrom.complete {a : LfnAccum} (printable : Printable name)
    (short : name.length ≤ vfsMaxName - 1) (ne : name ≠ []) (pushed : PushedFrom name 0 a) :
    fatLfnComplete a = true := by
  obtain ⟨c, rest, rfl⟩ := List.exists_cons_of_ne_nil ne
  have few := count_le short
  have first : a.name 0 = c := by
    rw [pushed.chars 0, if_pos ⟨by simp, by simp⟩]
    rfl
  have low := (printable c List.mem_cons_self).1
  have char : c ≠ 0 := by
    rintro rfl
    exact absurd low (by decide)
  have some_ : fatLfnEntryCountForName (c :: rest) ≠ 0 := by
    unfold fatLfnEntryCountForName lfnChars
    rw [List.length_cons]
    omega
  unfold fatLfnComplete
  rw [pushed.active, pushed.expected, pushed.mask, first]
  simp [some_, char]
  omega

theorem PushedFrom.text {a : LfnAccum} (printable : Printable name)
    (short : name.length ≤ vfsMaxName - 1) (pushed : PushedFrom name 0 a) : a.text = name := by
  have whole : (List.range (vfsMaxName - 1)).map a.name =
      name ++ List.replicate (vfsMaxName - 1 - name.length) 0 := by
    refine List.ext_getElem (by simp; omega) fun p lt lt' => ?_
    rw [List.getElem_map, List.getElem_range, pushed.chars p, List.getElem_append]
    by_cases inside : p < name.length
    · rw [if_pos ⟨by omega, inside⟩, dif_pos inside, List.getD_eq_getElem _ _ inside]
    · rw [if_neg fun both => inside both.2, dif_neg inside, List.getElem_replicate]
  have chars : ∀ c ∈ name, decide (c ≠ 0) = true := by
    intro c mem
    have low := (printable c mem).1
    refine decide_eq_true ?_
    rintro rfl
    exact absurd low (by decide)
  unfold LfnAccum.text
  rw [whole, List.takeWhile_append_of_pos chars]
  cases vfsMaxName - 1 - name.length with
  | zero => simp
  | succ n => simp [List.replicate_succ]

end RoundTrip

/-- **A long name is read back.**  Whatever has been pushed before, the parts of a name that
fits, in the order they have in the directory, and the short entry behind them yield the
name. -/
theorem long_name_round_trip (name sfn : CString) (ne : name ≠ []) (short : name.length ≤ 63)
    (printable : Printable name) (a : LfnAccum) (e : FatDirEntry) :
    fatEntryToName e ((lfnEntries sfn name).foldl fatLfnPush a) = (name, true) := by
  have some_ : 0 < fatLfnEntryCountForName name := by
    have := List.length_pos_of_ne_nil ne
    unfold fatLfnEntryCountForName lfnChars
    omega
  have pushed := PushedFrom.pushAll (a := a) printable short (fatLfnChecksum sfn) _
    (Nat.le_refl _) some_ (.inl rfl)
  have complete := pushed.complete printable short ne
  have text := pushed.text printable short
  unfold fatEntryToName
  rw [lfnEntries, if_pos complete, text]

/-- A name of 26 characters has no terminator. -/
theorem long_name_round_trip_full :
    fatEntryToName ⟨List.replicate 11 65, 0, 0, 0⟩
      ((lfnEntries (List.replicate 11 65) (List.replicate 26 97)).foldl fatLfnPush lfnReset) =
      (List.replicate 26 97, true) :=
  long_name_round_trip (List.replicate 26 97) (List.replicate 11 65) (by decide +kernel)
    (by decide +kernel) (by decide +kernel) lfnReset ⟨List.replicate 11 65, 0, 0, 0⟩

end NTux.Fat
