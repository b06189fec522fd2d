import NTux.Libc.Cmap

/-!
# Outlines, and the decoding of fonts

The part of `ttf_render_glyph` of `ttf.c` that decodes a simple glyph: its flags with their
repeat counts, the deltas in one or two bytes, and their sums.  A negative delta of one byte is
negated as an `int8_t`.

* `decodeOutline` — the code.
* `SimpleGlyph` — the bytes of a glyph with its flags and deltas.
* `outline_exact_iff` — the coordinates are the sums exactly if no negative delta of one byte is
  -128 or less and the glyph has at most 2048 points.
* `font_decoding_iff` — this and the character map.
-/

namespace NTux.Libc

open NTux.Fs

/-! ## The code -/

/-- The loop over the flags: how many are left, what is left of a repeat count and its flag, and
the bytes that are left. -/
def flagLoop : Nat → Nat → UInt8 → CString → List UInt8 × CString
  | 0, _, _, d => ([], d)
  | n + 1, k + 1, r, d => (r :: (flagLoop n k r d).1, (flagLoop n k r d).2)
  | n + 1, 0, r, [] => (0 :: (flagLoop n 0 r []).1, (flagLoop n 0 r []).2)
  | n + 1, 0, r, f :: d =>
      if f &&& 8 = 0 then (f :: (flagLoop n 0 r d).1, (flagLoop n 0 r d).2)
      else
        match d with
        | [] => (f :: (flagLoop n 0 r []).1, (flagLoop n 0 r []).2)
        | k :: d => (f :: (flagLoop n k.toNat f d).1, (flagLoop n k.toNat f d).2)

/-- `(int8_t)`. -/
def int8 (b : UInt8) : Int := (b.toNat : Int).bmod 256

/-- The delta that a flag says, and how many bytes it takes. -/
def readDelta (short same f : UInt8) (d : CString) : Int × Nat :=
  if f &&& short ≠ 0 then
    (match d with
      | [] => 0
      | b :: _ => if f &&& same ≠ 0 then (b.toNat : Int) else -int8 b, 1)
  else if f &&& same = 0 then
    (match d with
      | hi :: lo :: _ => int16 (hi.toNat * 2 ^ 8 + lo.toNat)
      | _ => 0, 2)
  else (0, 0)

/-- A loop over the coordinates of one axis. -/
def deltaLoop (short same : UInt8) : List UInt8 → CString → List Int × CString
  | [], d => ([], d)
  | f :: fs, d =>
      let v := readDelta short same f d
      let rest := deltaLoop short same fs (d.drop v.2)
      (v.1 :: rest.1, rest.2)

/-- The sums, as `int16_t`. -/
def sums16 (acc : Int) : List Int → List Int
  | [] => []
  | v :: vs => (acc + v).bmod (2 ^ 16) :: sums16 ((acc + v).bmod (2 ^ 16)) vs

/-- `flags`, `xs` and `ys`. -/
structure Outline where
  flags : List UInt8
  xs : List Int
  ys : List Int
  deriving DecidableEq

/-- The points of the bytes of a glyph with contours; nothing, where null is returned. -/
def decodeOutline (gd : CString) : Option Outline :=
  let contours := (int16 (r16 gd 0)).toNat
  if contours = 0 then none
  else if int32 gd.length < (contours * 2 + 10 : Nat) then none
  else
    let total := r16 gd (10 + (contours - 1) * 2) + 1
    if 2048 < total then none
    else if gd.length < 10 + contours * 2 + 2 then none
    else
      let start := 10 + contours * 2 + 2 + r16 gd (10 + contours * 2)
      if gd.length < start then none
      else
        let flags := flagLoop total 0 0 (gd.drop start)
        let xs := deltaLoop 0x02 0x10 flags.1 flags.2
        let ys := deltaLoop 0x04 0x20 flags.1 xs.2
        some ⟨flags.1, sums16 0 xs.1, sums16 0 ys.1⟩

/-! ## What is expected -/

/-- Flags as bytes: with bit 3 a count of further points follows. -/
inductive FlagBytes : List UInt8 → CString → Prop
  | nil : FlagBytes [] []
  | one {f : UInt8} {fs : List UInt8} {d : CString} : f &&& 8 = 0 → FlagBytes fs d →
      FlagBytes (f :: fs) (f :: d)
  | run {f : UInt8} {fs : List UInt8} {d : CString} (k : UInt8) : f &&& 8 ≠ 0 → FlagBytes fs d →
      FlagBytes (List.replicate (k.toNat + 1) f ++ fs) (f :: k :: d)

/-- Deltas as bytes: one byte and a sign, two bytes, or none for zero. -/
inductive DeltaBytes (short same : UInt8) : List UInt8 → CString → List Int → Prop
  | nil : DeltaBytes short same [] [] []
  | plus {f : UInt8} {fs : List UInt8} {d : CString} {vs : List Int} (b : UInt8) :
      f &&& short ≠ 0 → f &&& same ≠ 0 → DeltaBytes short same fs d vs →
        DeltaBytes short same (f :: fs) (b :: d) (b.toNat :: vs)
  | minus {f : UInt8} {fs : List UInt8} {d : CString} {vs : List Int} (b : UInt8) :
      f &&& short ≠ 0 → f &&& same = 0 → DeltaBytes short same fs d vs →
        DeltaBytes short same (f :: fs) (b :: d) (-b.toNat :: vs)
  | zero {f : UInt8} {fs : List UInt8} {d : CString} {vs : List Int} :
      f &&& short = 0 → f &&& same ≠ 0 → DeltaBytes short same fs d vs →
        DeltaBytes short same (f :: fs) d (0 :: vs)
  | word {f : UInt8} {fs : List UInt8} {d : CString} {vs : List Int} (hi lo : UInt8) :
      f &&& short = 0 → f &&& same = 0 → DeltaBytes short same fs d vs →
        DeltaBytes short same (f :: fs) (hi :: lo :: d) (int16 (hi.toNat * 2 ^ 8 + lo.toNat) :: vs)

/-- The running sums. -/
def runningSums (acc : Int) : List Int → List Int
  | [] => []
  | v :: vs => (acc + v) :: runningSums (acc + v) vs

/-- A coordinate. -/
def IsCoordinate (v : Int) : Prop := -2 ^ 15 ≤ v ∧ v < 2 ^ 15

/-- The bytes of a simple glyph: header, ends of the contours and instructions, the flags of
its points, and the deltas of the axes. -/
structure SimpleGlyph (gd : CString) (flags : List UInt8) (xs ys : List Int) : Prop where
  size : gd.length < 2 ^ 32
  contours : 0 < int16 (r16 gd 0)
  points : flags.length = r16 gd (10 + ((int16 (r16 gd 0)).toNat - 1) * 2) + 1
  parts : ∃ front flagBytes xBytes yBytes rest,
    gd = front ++ (flagBytes ++ (xBytes ++ (yBytes ++ rest))) ∧
      front.length = 10 + (int16 (r16 gd 0)).toNat * 2 + 2 +
        r16 gd (10 + (int16 (r16 gd 0)).toNat * 2) ∧
      FlagBytes flags flagBytes ∧ DeltaBytes 0x02 0x10 flags xBytes xs ∧
      DeltaBytes 0x04 0x20 flags yBytes ys
  in_range : (∀ v ∈ runningSums 0 xs, IsCoordinate v) ∧ ∀ v ∈ runningSums 0 ys, IsCoordinate v

/-- The points of a simple glyph are at the sums of its deltas. -/
def OutlineExact (gd : CString) : Prop :=
  ∀ flags xs ys, SimpleGlyph gd flags xs ys →
    decodeOutline gd = some ⟨flags, runningSums 0 xs, runningSums 0 ys⟩

/-- No delta of one byte is -128 or less. -/
def ShortDeltas (short : UInt8) (flags : List UInt8) (vs : List Int) : Prop :=
  ∀ p ∈ flags.zip vs, p.1 &&& short ≠ 0 → -128 < p.2

/-- The glyph is shorter than 2 GiB and has at most 2048 points, and its deltas of one byte are
greater than -128. -/
def OutlineFits (gd : CString) : Prop :=
  ∀ flags xs ys, SimpleGlyph gd flags xs ys →
    gd.length < 2 ^ 31 ∧ flags.length ≤ 2048 ∧ ShortDeltas 0x02 flags xs ∧
      ShortDeltas 0x04 flags ys

/-! ## The flags -/

theorem flagLoop_repeat (n : Nat) (r : UInt8) (d : CString) : ∀ k : Nat,
    flagLoop (k + n) k r d =
      (List.replicate k r ++ (flagLoop n 0 r d).1, (flagLoop n 0 r d).2)
  | 0 => by simp
  | k + 1 => by
      have one_more : flagLoop (k + n + 1) (k + 1) r d =
          (r :: (flagLoop (k + n) k r d).1, (flagLoop (k + n) k r d).2) := by
        simp only [flagLoop]
      rw [Nat.add_right_comm, one_more, flagLoop_repeat n r d k]
      rfl

/-- The flags are read as they are written. -/
theorem flagLoop_spec {flags : List UInt8} {bytes : CString} (encoded : FlagBytes flags bytes)
    (rest : CString) : ∀ r, flagLoop flags.length 0 r (bytes ++ rest) = (flags, rest) := by
  induction encoded with
  | nil => exact fun r => rfl
  | one plain _ ih =>
      intro r
      simp only [List.cons_append, List.length_cons, flagLoop, if_pos plain, ih r]
  | @run f fs d k repeats _ ih =>
      intro r
      have count : (List.replicate (k.toNat + 1) f ++ fs).length = (k.toNat + fs.length) + 1 := by
        rw [List.length_append, List.length_replicate]
        omega
      have counted : flagLoop (k.toNat + fs.length + 1) 0 r (f :: k :: (d ++ rest)) =
          (f :: (flagLoop (k.toNat + fs.length) k.toNat f (d ++ rest)).1,
            (flagLoop (k.toNat + fs.length) k.toNat f (d ++ rest)).2) := by
        simp only [flagLoop, if_neg repeats]
      rw [count, List.cons_append, List.cons_append, counted, flagLoop_repeat, ih f,
        List.replicate_succ, List.cons_append]

/-! ## The deltas -/

/-- What the code makes of a delta. -/
def codeDelta (short f : UInt8) (v : Int) : Int :=
  if f &&& short ≠ 0 ∧ v ≤ -128 then v + 256 else v

theorem neg_int8 (b : UInt8) :
    -int8 b = if -(b.toNat : Int) ≤ -128 then -(b.toNat : Int) + 256 else -(b.toNat : Int) := by
  have lt : b.toNat < 256 := UInt8.toNat_lt b
  by_cases small : b.toNat < 128
  · have value : int8 b = b.toNat := Int.bmod_eq_of_le (by omega) (by omega)
    rw [value, if_neg (by omega)]
  · have wrapped : ((b.toNat : Int) - (256 : Nat)).bmod 256 = (b.toNat : Int).bmod 256 :=
      Int.sub_bmod_right _ _
    have value : int8 b = b.toNat - 256 :=
      wrapped.symm.trans (Int.bmod_eq_of_le (by omega) (by omega))
    rw [value, if_pos (by omega)]
    omega

/-- The deltas are read as they are written, but for those of one byte below -127. -/
theorem deltaLoop_spec {short same : UInt8} {flags : List UInt8} {bytes : CString} {vs : List Int}
    (encoded : DeltaBytes short same flags bytes vs) (rest : CString) :
    deltaLoop short same flags (bytes ++ rest) =
      (List.zipWith (codeDelta short) flags vs, rest) := by
  induction encoded with
  | nil => rfl
  | plus b is_short is_same _ ih =>
      have positive : ¬ (b.toNat : Int) ≤ -128 := by omega
      simp [deltaLoop, readDelta, is_short, is_same, ih, codeDelta, positive]
  | minus b is_short not_same _ ih =>
      simp [deltaLoop, readDelta, is_short, not_same, ih, codeDelta, neg_int8]
  | zero not_short is_same _ ih =>
      simp [deltaLoop, readDelta, not_short, is_same, ih, codeDelta]
  | word hi lo not_short not_same _ ih =>
      simp [deltaLoop, readDelta, not_short, not_same, ih, codeDelta]

theorem DeltaBytes.length_eq {short same : UInt8} {flags : List UInt8} {bytes : CString}
    {vs : List Int} (encoded : DeltaBytes short same flags bytes vs) : flags.length = vs.length := by
  induction encoded with
  | nil => rfl
  | plus _ _ _ _ ih => exact congrArg (· + 1) ih
  | minus _ _ _ _ ih => exact congrArg (· + 1) ih
  | zero _ _ _ ih => exact congrArg (· + 1) ih
  | word _ _ _ _ _ ih => exact congrArg (· + 1) ih

/-- A wrong delta makes a wrong coordinate. -/
theorem sums16_iff (short : UInt8) : ∀ {flags : List UInt8} {vs : List Int} {acc : Int},
    flags.length = vs.length → (∀ v ∈ runningSums acc vs, IsCoordinate v) →
      (sums16 acc (List.zipWith (codeDelta short) flags vs) = runningSums acc vs ↔
        ShortDeltas short flags vs)
  | [], [], acc, _, _ => by simp [sums16, runningSums, ShortDeltas]
  | f :: fs, v :: vs, acc, count, in_range => by
      simp only [runningSums, List.mem_cons, forall_eq_or_imp] at in_range
      obtain ⟨⟨low, high⟩, in_range⟩ := in_range
      have rec_iff := sums16_iff short (by simpa using count) in_range
      have same : (acc + v).bmod (2 ^ 16) = acc + v := Int.bmod_eq_of_le (by omega) (by omega)
      simp only [ShortDeltas, List.zip_cons_cons, List.mem_cons, forall_eq_or_imp,
        List.zipWith_cons_cons, sums16, runningSums, List.cons.injEq]
      -- a delta that is wrong is wrong by 256, which no sum of 16 bits hides
      by_cases wrong : f &&& short ≠ 0 ∧ v ≤ -128
      · have delta : codeDelta short f v = v + 256 := if_pos wrong
        have other : (acc + (v + 256)).bmod (2 ^ 16) ≠ acc + v := by
          rw [Int.bmod]
          omega
        rw [delta]
        refine ⟨fun eq => absurd eq.1 other, fun small => ?_⟩
        have greater := small.1 wrong.1
        omega
      · have delta : codeDelta short f v = v := if_neg wrong
        have small : f &&& short ≠ 0 → -128 < v := by
          intro is_short
          by_contra not_greater
          exact wrong ⟨is_short, by omega⟩
        rw [delta, same, rec_iff, ShortDeltas]
        simp only [true_and]
        exact (and_iff_right small).symm

/-! ## The outline -/

/-- The decoder reads the flags and deltas of a glyph of a length and number of points that it
takes. -/
theorem decodeOutline_eq {gd : CString} {flags : List UInt8} {xs ys : List Int}
    (glyph : SimpleGlyph gd flags xs ys) :
    decodeOutline gd =
      if gd.length < 2 ^ 31 ∧ flags.length ≤ 2048 then
        some ⟨flags, sums16 0 (List.zipWith (codeDelta 0x02) flags xs),
          sums16 0 (List.zipWith (codeDelta 0x04) flags ys)⟩
      else none := by
  obtain ⟨size, contours, points, ⟨front, flagBytes, xBytes, yBytes, rest, parts, front_length,
    flags_at, xs_at, ys_at⟩, -⟩ := glyph
  have some_contour : (int16 (r16 gd 0)).toNat ≠ 0 := by omega
  have long : front.length ≤ gd.length := by
    rw [parts, List.length_append]
    omega
  rw [decodeOutline]
  simp only
  rw [if_neg some_contour, ← points]
  by_cases small : gd.length < 2 ^ 31
  · rw [int32_of_lt small, if_neg (by omega)]
    by_cases few : flags.length ≤ 2048
    · rw [if_neg (by omega), if_neg (by omega), ← front_length, if_neg (by omega),
        if_pos ⟨small, few⟩]
      have behind : gd.drop front.length = flagBytes ++ (xBytes ++ (yBytes ++ rest)) := by
        conv_lhs => rw [parts]
        exact List.drop_left
      rw [behind, flagLoop_spec flags_at, deltaLoop_spec xs_at, deltaLoop_spec ys_at]
    · rw [if_pos (by omega), if_neg fun both => few both.2]
  -- the length is negative as an `int`, and the glyph is refused
  · have negative := int32_neg (Nat.not_lt.1 small) size
    rw [if_pos (by omega), if_neg fun both => small both.1]

/-- The points are at the sums of the deltas exactly under the condition. -/
theorem outline_exact_iff (gd : CString) : OutlineExact gd ↔ OutlineFits gd := by
  refine forall_congr' fun flags => forall_congr' fun xs => forall_congr' fun ys =>
    forall_congr' fun glyph => ?_
  obtain ⟨front, flagBytes, xBytes, yBytes, rest, -, -, -, xs_at, ys_at⟩ := glyph.parts
  have xs_iff := sums16_iff 0x02 xs_at.length_eq glyph.in_range.1
  have ys_iff := sums16_iff 0x04 ys_at.length_eq glyph.in_range.2
  rw [decodeOutline_eq glyph]
  by_cases taken : gd.length < 2 ^ 31 ∧ flags.length ≤ 2048
  · rw [if_pos taken, ← xs_iff, ← ys_iff]
    simp only [Option.some.injEq, Outline.mk.injEq, taken.1, taken.2, true_and]
  · rw [if_neg taken]
    constructor
    · intro refused
      cases refused
    · rintro ⟨small, few, -⟩
      exact absurd ⟨small, few⟩ taken

/-- Character maps and outlines are decoded as the format says exactly under these conditions. -/
theorem font_decoding_iff (cd gd : CString) (codepoint : UInt32) :
    (GlyphExact cd codepoint ↔ GlyphFits cd codepoint) ∧ (OutlineExact gd ↔ OutlineFits gd) :=
  ⟨glyph_exact_iff cd codepoint, outline_exact_iff gd⟩

/-- A `cmap` of format 4 that gives the letters from `A` to `Z` the glyphs from 36 on. -/
def sampleCmap : CString :=
  [0, 0, 0, 1] ++ [0, 3, 0, 1, 0, 0, 0, 12] ++ [0, 4, 0, 32, 0, 0, 0, 4, 0, 4, 0, 1, 0, 0] ++
    [0, 90, 255, 255] ++ [0, 0] ++ [0, 65, 255, 255] ++ [255, 227, 0, 1] ++ [0, 0, 0, 0]

/-- A glyph of one point, 200 units to the left. -/
def sampleGlyph : CString := [0, 1, 0, 0, 0, 0, 0, 0, 0, 0] ++ [0, 0] ++ [0, 0] ++ [0x22] ++ [200]

/-- `A` is not found, and the point is put to the right. -/
theorem decoded_wrong : ¬ GlyphExact sampleCmap 65 ∧ ¬ OutlineExact sampleGlyph := by
  constructor
  · intro found
    have formed : WellFormedCmap sampleCmap 12 :=
      ⟨by decide +kernel, by decide +kernel, ⟨0, by decide +kernel, by decide +kernel⟩,
        by decide +kernel, by decide +kernel, fun fmt => absurd fmt (by decide +kernel)⟩
    have first : FirstSegment sampleCmap 12 65 0 :=
      ⟨by decide +kernel, by decide +kernel, by decide +kernel⟩
    have glyph := found 12 _ formed (.segment (by decide +kernel) first)
    exact absurd glyph (by decide +kernel)
  · intro decoded
    have glyph : SimpleGlyph sampleGlyph [0x22] [-200] [0] :=
      ⟨by decide +kernel, by decide +kernel, by decide +kernel,
        ⟨[0, 1, 0, 0, 0, 0, 0, 0, 0, 0, 0, 0, 0, 0], [0x22], [200], [], [], rfl, by decide +kernel,
          .one (by decide) .nil, .minus 200 (by decide) (by decide) .nil,
          .zero (by decide) (by decide) .nil⟩,
        by simp [runningSums, IsCoordinate], by simp [runningSums, IsCoordinate]⟩
    have at_left := decoded _ _ _ glyph
    exact absurd at_left (by decide +kernel)

end NTux.Libc
