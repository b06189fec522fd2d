import NTux.Libc.Ttf

/-!
# Character maps

`ttf_glyph_index` of `ttf.c` for the bytes of a `cmap` table.  A subtable of format 4 has two
bytes between the ends of its segments and their starts, which the code does not pass over.

* `ttfGlyphIndex` — the code.
* `SpecGlyph` — the glyph that the format gives a code point.
* `glyph_exact_iff` — the code gives it for the formats 0, 6 and 12, and for format 4 exactly
  when the fields two bytes before those of the segment lead to the same glyph.
-/

namespace NTux.Libc

open NTux.Fs

/-! ## The code -/

/-- A segment that does not end before the code point: a glyph is returned, or the loop ends. -/
def segmentTurn (cd : CString) (sub cp start : Nat) (delta : Int) (ro : Nat) : Option Int :=
  if cp < start then none
  else if ro = 0 then some (int32 (cp + delta))
  else
    let address := (sub + (ro + (cp - start) * 2)) % 2 ^ 32
    if cd.length < (address + 2) % 2 ^ 32 then some 0 else some (r16 cd address)

/-- The loop over the segments of format 4 from the segment `s` on, with the places of the
arrays. -/
def segmentLoop (cd : CString) (sub cp ends starts deltas offsets : Nat) : Nat → Nat → Option Int
  | 0, _ => none
  | left + 1, s =>
      if r16 cd (ends + s * 2) < cp then
        segmentLoop cd sub cp ends starts deltas offsets left (s + 1)
      else
        segmentTurn cd sub cp (r16 cd (starts + s * 2)) (int16 (r16 cd (deltas + s * 2)))
          (r16 cd (offsets + s * 2))

/-- Format 4: the arrays follow each other from byte 14 on. -/
def format4 (cd : CString) (sub cp : Nat) : Option Int :=
  let n := r16 cd (sub + 6) / 2
  let ec := sub + 14
  -- `reservedPad` is not passed over
  let sc := ec + n * 2
  let idDelta := sc + n * 2
  segmentLoop cd sub cp ec sc idDelta (idDelta + n * 2) n 0

/-- Format 0. -/
def format0 (cd : CString) (sub cp : Nat) : Option Int :=
  if cp < 256 then some (byteAt cd (sub + (6 + cp))) else none

/-- Format 6. -/
def format6 (cd : CString) (sub cp : Nat) : Option Int :=
  if (sub + 10) % 2 ^ 32 ≤ cd.length then
    let first := r16 cd (sub + 6)
    if first ≤ cp ∧ cp < first + r16 cd (sub + 8) then
      some (r16 cd (sub + 10 + (cp - first) * 2))
    else none
  else none

/-- The loop over the groups of format 12. -/
def groupLoop (cd : CString) (sub cp : Nat) : Nat → Nat → Option Int
  | 0, _ => none
  | left + 1, g =>
      let off := (sub + 16 + g * 12) % 2 ^ 32
      if cd.length < (off + 12) % 2 ^ 32 then none
      else if r32 cd off ≤ cp ∧ cp ≤ r32 cd (off + 4) then
        some (int32 (r32 cd (off + 8) + (cp - r32 cd off) : Nat))
      else groupLoop cd sub cp left (g + 1)

/-- Format 12. -/
def format12 (cd : CString) (sub cp : Nat) : Option Int :=
  if (sub + 16) % 2 ^ 32 ≤ cd.length then groupLoop cd sub cp (r32 cd (sub + 12)) 0 else none

/-- What a subtable returns; nothing, where the loop over the encodings goes on. -/
def subtableGlyph (cd : CString) (sub cp : Nat) : Option Int :=
  let fmt := r16 cd sub
  if fmt = 4 ∧ (sub + 14) % 2 ^ 32 ≤ cd.length then format4 cd sub cp
  else if fmt = 0 then format0 cd sub cp
  else if fmt = 6 then format6 cd sub cp
  else if fmt = 12 then format12 cd sub cp
  else none

/-- An encoding record for Unicode. -/
def Usable (cd : CString) (i : Nat) : Prop :=
  r16 cd (4 + i * 8) = 0 ∨ r16 cd (4 + i * 8) = 3 ∧ r16 cd (4 + i * 8 + 2) = 1

instance (cd : CString) (i : Nat) : Decidable (Usable cd i) :=
  inferInstanceAs (Decidable (_ ∨ _ ∧ _))

/-- The loop over the encodings from the record `i` on. -/
def encodingLoop (cd : CString) (cp : Nat) : Nat → Nat → Int
  | 0, _ => 0
  | left + 1, i =>
      if int32 cd.length < (4 + i * 8 + 8 : Nat) then 0
      else if Usable cd i then
        let sub := r32 cd (4 + i * 8 + 4)
        if cd.length < (sub + 2) % 2 ^ 32 then encodingLoop cd cp left (i + 1)
        else
          match subtableGlyph cd sub cp with
          | some g => g
          | none => encodingLoop cd cp left (i + 1)
      else encodingLoop cd cp left (i + 1)

/-- `ttf_glyph_index` for the bytes of the table. -/
def ttfGlyphIndex (cd : CString) (codepoint : UInt32) : Int :=
  if cd.length < 4 then 0 else encodingLoop cd codepoint.toNat (r16 cd 2) 0

/-! ## What is expected -/

/-- The number of segments of format 4. -/
def segCount (cd : CString) (sub : Nat) : Nat := r16 cd (sub + 6) / 2

/-- `endCode`. -/
def endCode (cd : CString) (sub s : Nat) : Nat := r16 cd (sub + 14 + s * 2)

/-- `startCode`, behind the two bytes of `reservedPad`. -/
def startCode (cd : CString) (sub s : Nat) : Nat := r16 cd (sub + 16 + segCount cd sub * 2 + s * 2)

/-- `idDelta`. -/
def idDelta (cd : CString) (sub s : Nat) : Nat := r16 cd (sub + 16 + segCount cd sub * 4 + s * 2)

/-- Where `idRangeOffset` is. -/
def rangeOffsetAt (cd : CString) (sub s : Nat) : Nat := sub + 16 + segCount cd sub * 6 + s * 2

/-- The glyph that `idRangeOffset` leads to, counted from its own place. -/
def rangeGlyph (cd : CString) (sub s cp : Nat) : Nat :=
  r16 cd (rangeOffsetAt cd sub s + r16 cd (rangeOffsetAt cd sub s) + (cp - startCode cd sub s) * 2)

/-- The first segment that does not end before the code point. -/
structure FirstSegment (cd : CString) (sub cp s : Nat) : Prop where
  lt : s < segCount cd sub
  reaches : cp ≤ endCode cd sub s
  first : ∀ r < s, endCode cd sub r < cp

/-- The glyph of a code point in its segment, modulo 65536. -/
def segmentGlyph (cd : CString) (sub s cp : Nat) : Nat :=
  if cp < startCode cd sub s then 0
  else if r16 cd (rangeOffsetAt cd sub s) = 0 then (cp + idDelta cd sub s) % 2 ^ 16
  else if rangeGlyph cd sub s cp = 0 then 0
  else (rangeGlyph cd sub s cp + idDelta cd sub s) % 2 ^ 16

/-- A group of format 12 has the code point. -/
def InGroup (cd : CString) (sub g cp : Nat) : Prop :=
  r32 cd (sub + 16 + g * 12) ≤ cp ∧ cp ≤ r32 cd (sub + 16 + g * 12 + 4)

instance (cd : CString) (sub g cp : Nat) : Decidable (InGroup cd sub g cp) :=
  inferInstanceAs (Decidable (_ ∧ _))

/-- The glyph of a code point in each of the formats. -/
inductive SpecGlyph (cd : CString) (sub cp : Nat) : Nat → Prop
  | byte : r16 cd sub = 0 → cp < 256 → SpecGlyph cd sub cp (byteAt cd (sub + 6 + cp))
  | no_byte : r16 cd sub = 0 → 256 ≤ cp → SpecGlyph cd sub cp 0
  | segment {s : Nat} : r16 cd sub = 4 → FirstSegment cd sub cp s →
      SpecGlyph cd sub cp (segmentGlyph cd sub s cp)
  | no_segment : r16 cd sub = 4 → (∀ s < segCount cd sub, endCode cd sub s < cp) →
      SpecGlyph cd sub cp 0
  | entry : r16 cd sub = 6 → r16 cd (sub + 6) ≤ cp → cp < r16 cd (sub + 6) + r16 cd (sub + 8) →
      SpecGlyph cd sub cp (r16 cd (sub + 10 + (cp - r16 cd (sub + 6)) * 2))
  | no_entry : r16 cd sub = 6 →
      ¬ (r16 cd (sub + 6) ≤ cp ∧ cp < r16 cd (sub + 6) + r16 cd (sub + 8)) →
      SpecGlyph cd sub cp 0
  | group {g : Nat} : r16 cd sub = 12 → g < r32 cd (sub + 12) → InGroup cd sub g cp →
      SpecGlyph cd sub cp
        (r32 cd (sub + 16 + g * 12 + 8) + (cp - r32 cd (sub + 16 + g * 12)))
  | no_group : r16 cd sub = 12 → (∀ g < r32 cd (sub + 12), ¬ InGroup cd sub g cp) →
      SpecGlyph cd sub cp 0

/-- The bytes that a subtable has at least. -/
def subtableSize (cd : CString) (sub : Nat) : Nat :=
  match r16 cd sub with
  | 0 => 262
  | 4 => 16 + segCount cd sub * 8
  | 6 => 10 + r16 cd (sub + 8) * 2
  | _ => 16 + r32 cd (sub + 12) * 12

/-- A table whose records for Unicode, of which there is one, lead to the subtable at `sub`. -/
structure WellFormedCmap (cd : CString) (sub : Nat) : Prop where
  size : cd.length < 2 ^ 32
  records : 4 + r16 cd 2 * 8 ≤ cd.length
  usable : ∃ i < r16 cd 2, Usable cd i
  offset : ∀ i < r16 cd 2, Usable cd i → r32 cd (4 + i * 8 + 4) = sub
  within : sub + subtableSize cd sub ≤ cd.length
  /-- The groups are in order, and the glyphs are numbers of 16 bits. -/
  groups : r16 cd sub = 12 → ∀ g < r32 cd (sub + 12),
    r32 cd (sub + 16 + g * 12 + 8) + (r32 cd (sub + 16 + g * 12 + 4) - r32 cd (sub + 16 + g * 12)) <
        2 ^ 16 ∧
      ∀ h < g, r32 cd (sub + 16 + h * 12 + 4) < r32 cd (sub + 16 + g * 12)

/-- The code point is given its glyph. -/
def GlyphExact (cd : CString) (codepoint : UInt32) : Prop :=
  ∀ sub glyph, WellFormedCmap cd sub → SpecGlyph cd sub codepoint.toNat glyph →
    ttfGlyphIndex cd codepoint = glyph

/-- What the fields two bytes before those of the segment lead to, with the offset counted from
the start of the subtable. -/
structure EarlyGlyph (cd : CString) (sub s cp glyph : Nat) : Prop where
  before : cp < r16 cd (sub + 14 + segCount cd sub * 2 + s * 2) → glyph = 0
  delta : r16 cd (sub + 14 + segCount cd sub * 2 + s * 2) ≤ cp →
    r16 cd (sub + 14 + segCount cd sub * 6 + s * 2) = 0 →
      (glyph : Int) = cp + int16 (r16 cd (sub + 14 + segCount cd sub * 4 + s * 2))
  range : r16 cd (sub + 14 + segCount cd sub * 2 + s * 2) ≤ cp →
    r16 cd (sub + 14 + segCount cd sub * 6 + s * 2) ≠ 0 →
      glyph =
        let address := sub + (r16 cd (sub + 14 + segCount cd sub * 6 + s * 2) +
          (cp - r16 cd (sub + 14 + segCount cd sub * 2 + s * 2)) * 2)
        if cd.length < address + 2 then 0 else r16 cd address

/-- The table is shorter than 2 GiB, or the glyph is 0; and in format 4 no segment reaches the
code point, or the fields before those of the segment lead to its glyph. -/
def GlyphFits (cd : CString) (codepoint : UInt32) : Prop :=
  ∀ sub glyph, WellFormedCmap cd sub → SpecGlyph cd sub codepoint.toNat glyph →
    if cd.length < 2 ^ 31 then
      r16 cd sub = 4 → ∀ s, FirstSegment cd sub codepoint.toNat s →
        EarlyGlyph cd sub s codepoint.toNat glyph
    else glyph = 0

/-! ## The loops -/

theorem int32_of_lt {v : Nat} (lt : v < 2 ^ 31) : int32 v = v := by
  rw [int32, Int.bmod]
  omega

theorem int32_neg {v : Nat} (le : 2 ^ 31 ≤ v) (lt : v < 2 ^ 32) : int32 v < 0 := by
  rw [int32, Int.bmod]
  omega

theorem int16_bounds {v : Nat} : -32768 ≤ int16 v ∧ int16 v < 32768 := by
  have pos : 0 < 2 ^ 16 := Nat.two_pow_pos 16
  have low : -(((2 ^ 16 : Nat) : Int) / 2) ≤ int16 v := Int.le_bmod pos
  have high : int16 v < (((2 ^ 16 : Nat) : Int) + 1) / 2 := Int.bmod_lt pos
  generalize int16 v = w at low high ⊢
  omega

/-- The loop over the segments returns what the first one does that reaches the code point. -/
theorem segmentLoop_first {cd : CString} {sub cp ends starts deltas offsets f : Nat}
    (reaches : cp ≤ r16 cd (ends + f * 2)) : ∀ {left s : Nat}, s ≤ f → f < s + left →
      (∀ r, s ≤ r → r < f → r16 cd (ends + r * 2) < cp) →
        segmentLoop cd sub cp ends starts deltas offsets left s =
          segmentTurn cd sub cp (r16 cd (starts + f * 2)) (int16 (r16 cd (deltas + f * 2)))
            (r16 cd (offsets + f * 2))
  | 0, s, le, lt, _ => by omega
  | left + 1, s, le, lt, first => by
      rw [segmentLoop]
      by_cases here : s = f
      · subst here
        rw [if_neg (Nat.not_lt.2 reaches)]
      · rw [if_pos (first s (le_refl s) (by omega))]
        exact segmentLoop_first reaches (by omega) (by omega)
          fun r after before => first r (by omega) before

theorem segmentLoop_none {cd : CString} {sub cp ends starts deltas offsets : Nat} :
    ∀ {left s : Nat}, (∀ r, s ≤ r → r < s + left → r16 cd (ends + r * 2) < cp) →
      segmentLoop cd sub cp ends starts deltas offsets left s = none
  | 0, _, _ => rfl
  | left + 1, s, past => by
      rw [segmentLoop, if_pos (past s (le_refl s) (by omega))]
      exact segmentLoop_none fun r after before => past r (by omega) (by omega)

/-- A group that is within the table is looked at. -/
theorem groupLoop_succ {cd : CString} {sub cp left g : Nat} (small : cd.length < 2 ^ 31)
    (within : sub + 16 + (g + (left + 1)) * 12 ≤ cd.length) :
    groupLoop cd sub cp (left + 1) g =
      if InGroup cd sub g cp then
        some (int32 (r32 cd (sub + 16 + g * 12 + 8) + (cp - r32 cd (sub + 16 + g * 12)) : Nat))
      else groupLoop cd sub cp left (g + 1) := by
  have place : (sub + 16 + g * 12) % 2 ^ 32 = sub + 16 + g * 12 := Nat.mod_eq_of_lt (by omega)
  have inside : ¬ cd.length < (sub + 16 + g * 12 + 12) % 2 ^ 32 := by
    rw [Nat.mod_eq_of_lt (by omega)]
    omega
  rw [groupLoop, place, if_neg inside]
  rfl

theorem groupLoop_first {cd : CString} {sub cp f : Nat} (small : cd.length < 2 ^ 31)
    (has : InGroup cd sub f cp) : ∀ {left g : Nat}, g ≤ f → f < g + left →
      sub + 16 + (g + left) * 12 ≤ cd.length → (∀ h, g ≤ h → h < f → ¬ InGroup cd sub h cp) →
        groupLoop cd sub cp left g =
          some (int32 (r32 cd (sub + 16 + f * 12 + 8) + (cp - r32 cd (sub + 16 + f * 12)) : Nat))
  | 0, g, le, lt, _, _ => by omega
  | left + 1, g, le, lt, within, first => by
      rw [groupLoop_succ small within]
      by_cases here : g = f
      · subst here
        rw [if_pos has]
      · rw [if_neg (first g (le_refl g) (by omega))]
        exact groupLoop_first small has (by omega) (by omega) (by omega)
          fun h after before => first h (by omega) before

theorem groupLoop_none {cd : CString} {sub cp : Nat} (small : cd.length < 2 ^ 31) :
    ∀ {left g : Nat}, sub + 16 + (g + left) * 12 ≤ cd.length →
      (∀ h, g ≤ h → h < g + left → ¬ InGroup cd sub h cp) → groupLoop cd sub cp left g = none
  | 0, _, _, _ => rfl
  | left + 1, g, within, past => by
      rw [groupLoop_succ small within, if_neg (past g (le_refl g) (by omega))]
      exact groupLoop_none small (by omega) fun h after before => past h (by omega) (by omega)

/-- With one subtable for Unicode, its answer is what is returned. -/
theorem encodingLoop_eq {cd : CString} {sub cp n : Nat} (small : cd.length < 2 ^ 31)
    (records : 4 + n * 8 ≤ cd.length) (has_format : sub + 2 ≤ cd.length)
    (offset : ∀ i < n, Usable cd i → r32 cd (4 + i * 8 + 4) = sub) :
    ∀ {left i : Nat}, i + left = n →
      (∃ j, i ≤ j ∧ j < n ∧ Usable cd j) ∨ subtableGlyph cd sub cp = none →
        encodingLoop cd cp left i = (subtableGlyph cd sub cp).getD 0
  | 0, i, all, some_left => by
      rcases some_left with ⟨j, after, before, -⟩ | nothing
      · omega
      · rw [nothing]
        rfl
  | left + 1, i, all, some_left => by
      have in_table : ¬ int32 cd.length < (4 + i * 8 + 8 : Nat) := by
        rw [int32_of_lt small]
        omega
      have in_format : ¬ cd.length < (sub + 2) % 2 ^ 32 := by
        rw [Nat.mod_eq_of_lt (by omega)]
        omega
      rw [encodingLoop, if_neg in_table]
      by_cases usable : Usable cd i
      · rw [if_pos usable]
        simp only [offset i (by omega) usable]
        rw [if_neg in_format]
        cases answer : subtableGlyph cd sub cp with
        | some g => rfl
        | none =>
            have rest : encodingLoop cd cp left (i + 1) = (subtableGlyph cd sub cp).getD 0 :=
              encodingLoop_eq small records has_format offset (by omega) (.inr answer)
            rw [answer] at rest
            exact rest
      · rw [if_neg usable]
        refine encodingLoop_eq small records has_format offset (by omega) ?_
        refine some_left.imp_left fun ⟨j, after, before, usable_j⟩ => ⟨j, ?_, before, usable_j⟩
        by_contra not_after
        have same : j = i := by omega
        exact usable (same ▸ usable_j)

/-! ## The formats -/

theorem FirstSegment.unique {cd : CString} {sub cp s t : Nat} (a : FirstSegment cd sub cp s)
    (b : FirstSegment cd sub cp t) : s = t := by
  by_contra other
  rcases Nat.lt_or_gt_of_ne other with before | after
  · have past := b.first s before
    have reaches := a.reaches
    omega
  · have past := a.first t after
    have reaches := b.reaches
    omega

/-- What a segment returns, without the sums of 32 bits. -/
theorem segmentTurn_iff {cd : CString} {sub cp start ro glyph v : Nat} (small : sub < 2 ^ 31)
    (cp_lt : cp < 2 ^ 16) (ro_lt : ro < 2 ^ 16) :
    (segmentTurn cd sub cp start (int16 v) ro).getD 0 = glyph ↔
      (cp < start → glyph = 0) ∧ (start ≤ cp → ro = 0 → (glyph : Int) = cp + int16 v) ∧
        (start ≤ cp → ro ≠ 0 → glyph =
          if cd.length < sub + (ro + (cp - start) * 2) + 2 then 0
          else r16 cd (sub + (ro + (cp - start) * 2))) := by
  rw [segmentTurn]
  by_cases before : cp < start
  · rw [if_pos before, Option.getD_none]
    have not_le : ¬ start ≤ cp := by omega
    simp only [before, not_le, true_implies, false_implies, and_true]
    omega
  · have le : start ≤ cp := by omega
    rw [if_neg before]
    by_cases zero : ro = 0
    · have bounds := int16_bounds (v := v)
      have same : int32 (cp + int16 v) = cp + int16 v := by
        rw [int32, Int.bmod]
        omega
      rw [if_pos zero, Option.getD_some, same]
      simp [before, le, zero, eq_comm]
    · have place : (sub + (ro + (cp - start) * 2)) % 2 ^ 32 = sub + (ro + (cp - start) * 2) :=
        Nat.mod_eq_of_lt (by omega)
      have behind : (sub + (ro + (cp - start) * 2) + 2) % 2 ^ 32 =
          sub + (ro + (cp - start) * 2) + 2 := Nat.mod_eq_of_lt (by omega)
      rw [if_neg zero]
      simp only [place, behind, before, le, zero, false_implies, true_implies, ne_eq,
        not_false_eq_true, true_and]
      split
      · rw [Option.getD_some]
        omega
      · rw [Option.getD_some]
        omega

/-- What a subtable of format 4 returns, by its first segment and the fields before it. -/
theorem format4_iff {cd : CString} {sub cp s glyph : Nat} (small : sub < 2 ^ 31)
    (first : FirstSegment cd sub cp s) :
    (format4 cd sub cp).getD 0 = glyph ↔ EarlyGlyph cd sub s cp glyph := by
  have deltas : sub + 14 + segCount cd sub * 2 + segCount cd sub * 2 =
      sub + 14 + segCount cd sub * 4 := by omega
  have offsets : sub + 14 + segCount cd sub * 4 + segCount cd sub * 2 =
      sub + 14 + segCount cd sub * 6 := by omega
  have cp_lt : cp < 2 ^ 16 := lt_of_le_of_lt first.reaches (r16_lt _ _)
  have found : format4 cd sub cp =
      segmentTurn cd sub cp (r16 cd (sub + 14 + segCount cd sub * 2 + s * 2))
        (int16 (r16 cd (sub + 14 + segCount cd sub * 4 + s * 2)))
        (r16 cd (sub + 14 + segCount cd sub * 6 + s * 2)) := by
    have lt := first.lt
    rw [← offsets, ← deltas]
    exact segmentLoop_first first.reaches (Nat.zero_le s) (by rw [← segCount]; omega)
      fun r _ before => first.first r before
  rw [found, segmentTurn_iff small cp_lt (r16_lt _ _)]
  exact ⟨fun early => ⟨early.1, early.2.1, early.2.2⟩,
    fun early => ⟨early.before, early.delta, early.range⟩⟩

theorem format4_none {cd : CString} {sub cp : Nat}
    (past : ∀ s < segCount cd sub, endCode cd sub s < cp) : format4 cd sub cp = none :=
  segmentLoop_none fun r _ before => past r (by rw [Nat.zero_add] at before; exact before)

/-- The answer of a subtable is the glyph, for format 4 exactly under the condition. -/
theorem subtableGlyph_iff {cd : CString} {sub cp glyph : Nat} (small : cd.length < 2 ^ 31)
    (formed : WellFormedCmap cd sub) (spec : SpecGlyph cd sub cp glyph) :
    (subtableGlyph cd sub cp).getD 0 = glyph ↔
      (r16 cd sub = 4 → ∀ s, FirstSegment cd sub cp s → EarlyGlyph cd sub s cp glyph) := by
  have within := formed.within
  rw [subtableSize] at within
  have sub_small : sub < 2 ^ 31 := by omega
  cases spec with
  | byte fmt lt =>
      have answer : subtableGlyph cd sub cp = some (byteAt cd (sub + 6 + cp) : Int) := by
        simp only [subtableGlyph, fmt, format0, if_pos lt, Nat.add_assoc]
        rfl
      rw [answer, fmt]
      simp
  | no_byte fmt le =>
      have answer : subtableGlyph cd sub cp = none := by
        simp only [subtableGlyph, fmt, format0, if_neg (Nat.not_lt.2 le)]
        rfl
      rw [answer, fmt]
      simp
  | @segment s fmt first =>
      rw [fmt] at within
      simp only at within
      have header : (sub + 14) % 2 ^ 32 ≤ cd.length := (Nat.mod_le _ _).trans (by omega)
      have answer : subtableGlyph cd sub cp = format4 cd sub cp := by
        rw [subtableGlyph, if_pos ⟨fmt, header⟩]
      rw [answer, format4_iff sub_small first]
      exact ⟨fun early _ t other => other.unique first ▸ early, fun early => early fmt s first⟩
  | no_segment fmt past =>
      rw [fmt] at within
      simp only at within
      have header : (sub + 14) % 2 ^ 32 ≤ cd.length := (Nat.mod_le _ _).trans (by omega)
      have answer : subtableGlyph cd sub cp = none := by
        rw [subtableGlyph, if_pos ⟨fmt, header⟩, format4_none past]
      rw [answer]
      refine ⟨fun _ _ s first => ?_, fun _ => rfl⟩
      have ends := past s first.lt
      have reaches := first.reaches
      omega
  | entry fmt le lt =>
      rw [fmt] at within
      simp only at within
      have header : (sub + 10) % 2 ^ 32 ≤ cd.length := (Nat.mod_le _ _).trans (by omega)
      have answer : subtableGlyph cd sub cp =
          some (r16 cd (sub + 10 + (cp - r16 cd (sub + 6)) * 2) : Int) := by
        simp only [subtableGlyph, fmt, format6, if_pos header, if_pos (And.intro le lt)]
        rfl
      rw [answer, fmt]
      simp
  | no_entry fmt none_there =>
      rw [fmt] at within
      simp only at within
      have header : (sub + 10) % 2 ^ 32 ≤ cd.length := (Nat.mod_le _ _).trans (by omega)
      have answer : subtableGlyph cd sub cp = none := by
        simp only [subtableGlyph, fmt, format6, if_pos header, if_neg none_there]
        rfl
      rw [answer, fmt]
      simp
  -- the groups before do not reach the code point, as they are in order
  | @group g fmt lt has =>
      rw [fmt] at within
      simp only at within
      have header : (sub + 16) % 2 ^ 32 ≤ cd.length := (Nat.mod_le _ _).trans (by omega)
      obtain ⟨narrow, ordered⟩ := formed.groups fmt g lt
      have first : ∀ h, 0 ≤ h → h < g → ¬ InGroup cd sub h cp := by
        intro h _ before in_h
        have ends := ordered h before
        have reaches := in_h.2
        have starts := has.1
        omega
      have answer : subtableGlyph cd sub cp =
          some
            ((r32 cd (sub + 16 + g * 12 + 8) + (cp - r32 cd (sub + 16 + g * 12)) : Nat) : Int) := by
        have loop : groupLoop cd sub cp (r32 cd (sub + 12)) 0 = _ :=
          groupLoop_first small has (Nat.zero_le g) (by omega) (by omega) first
        rw [int32_of_lt (by have reaches := has.2; omega)] at loop
        simp only [subtableGlyph, fmt, format12, if_pos header, loop]
        rfl
      rw [answer, fmt]
      simp
  | no_group fmt past =>
      rw [fmt] at within
      simp only at within
      have header : (sub + 16) % 2 ^ 32 ≤ cd.length := (Nat.mod_le _ _).trans (by omega)
      have answer : subtableGlyph cd sub cp = none := by
        have loop : groupLoop cd sub cp (r32 cd (sub + 12)) 0 = none :=
          groupLoop_none small (by omega) fun h _ before => past h (by omega)
        simp only [subtableGlyph, fmt, format12, if_pos header, loop]
        rfl
      rw [answer, fmt]
      simp

/-- A code point is given its glyph exactly under the condition. -/
theorem glyph_exact_iff (cd : CString) (codepoint : UInt32) :
    GlyphExact cd codepoint ↔ GlyphFits cd codepoint := by
  refine forall_congr' fun sub => forall_congr' fun glyph => forall_congr' fun formed =>
    forall_congr' fun spec => ?_
  obtain ⟨i, i_lt, usable⟩ := formed.usable
  have records := formed.records
  have long : ¬ cd.length < 4 := by omega
  rw [ttfGlyphIndex, if_neg long]
  by_cases small : cd.length < 2 ^ 31
  · have has_format : sub + 2 ≤ cd.length := by
      have within := formed.within
      rw [subtableSize] at within
      split at within <;> omega
    rw [if_pos small, encodingLoop_eq small records has_format formed.offset (Nat.zero_add _)
      (.inl ⟨i, Nat.zero_le i, i_lt, usable⟩)]
    exact subtableGlyph_iff small formed spec
  -- the length is negative as an `int`, and the first record is not looked at
  · have negative := int32_neg (Nat.not_lt.1 small) formed.size
    obtain ⟨n, count⟩ : ∃ n, r16 cd 2 = n + 1 := ⟨r16 cd 2 - 1, by omega⟩
    rw [if_neg small, count, encodingLoop, if_pos (by omega)]
    omega

end NTux.Libc
