import NTux.Libc.Format

/-!
# Fonts

`ttf_load` of `ttf.c`: the table directory, the fields of `head`, `maxp` and `hhea`, and the
metrics of `hmtx`.  A table is looked for by a tag whose bytes are in the other order than those
of the tag that is read.

* `ttfLoad` — the code.
* `WellFormed` — a file with the four tables.
* `LoadExact` — what is reported is what the file says.
* `ttf_load_iff` — exactly for the files that have the tables under the reversed tags too.
-/

namespace NTux.Libc

open NTux.Fs

/-! ## The code -/

/-- The byte at an offset. -/
def byteAt (d : CString) (i : Nat) : Nat := (d.getD i 0).toNat

/-- `r16`. -/
def r16 (d : CString) (i : Nat) : Nat := byteAt d i * 2 ^ 8 + byteAt d (i + 1)

/-- `r32`. -/
def r32 (d : CString) (i : Nat) : Nat := r16 d i * 2 ^ 16 + r16 d (i + 2)

/-- `int16_t`. -/
def int16 (v : Nat) : Int := (v : Int).bmod (2 ^ 16)

/-- `TTF_TAG`. -/
def ttfTag (a b c d : Nat) : Nat := a + b * 2 ^ 8 + c * 2 ^ 16 + d * 2 ^ 24

/-- `TAG_HEAD`. -/
def tagHead : Nat := ttfTag 104 101 97 100

/-- `TAG_MAXP`. -/
def tagMaxp : Nat := ttfTag 109 97 120 112

/-- `TAG_HHEA`. -/
def tagHhea : Nat := ttfTag 104 104 101 97

/-- `TAG_HMTX`. -/
def tagHmtx : Nat := ttfTag 104 109 116 120

/-- `ttf_table_t`. -/
structure TtfTable where
  tag : Nat
  offset : Nat
  length : Nat
  deriving DecidableEq

/-- `tables` as they are read. -/
def ttfTables (d : CString) : List TtfTable :=
  (List.range (r16 d 4)).map fun i =>
    ⟨r32 d (12 + i * 16), r32 d (12 + i * 16 + 8), r32 d (12 + i * 16 + 12)⟩

/-- `find_table`. -/
def findTable (d : CString) (tag : Nat) : Option TtfTable :=
  (ttfTables d).find? fun t => t.tag == tag

/-- What `table_data` returns: null, or a pointer to bytes of the file, or one behind which the
bytes are not all of the file. -/
inductive TableData where
  | null
  | outside
  | at (offset : Nat)
  deriving DecidableEq

/-- `table_data`; the sums are those of 32 bits. -/
def tableData (d : CString) (t : TtfTable) (off len : Nat) : TableData :=
  if t.length < (off + len) % 2 ^ 32 then .null
  else if d.length < (t.offset + off + len) % 2 ^ 32 then .null
  else if t.offset + off + len ≤ d.length then .at (t.offset + off)
  else .outside

/-- `advance_widths` and `left_side_bearings`: null, written or read outside, or their values. -/
inductive Metrics where
  | absent
  | outside
  | values (advanceWidths leftSideBearings : List Int)
  deriving DecidableEq

/-- `ttf_font_t` as it is reported. -/
structure TtfFont where
  unitsPerEm : Nat
  numGlyphs : Nat
  locaFormat : Nat
  hheaMetrics : Nat
  metrics : Metrics
  deriving DecidableEq

/-- The end of `ttf_load`: null, a read outside the file, or a font. -/
inductive Loaded where
  | fails
  | outside
  | font (f : TtfFont)
  deriving DecidableEq

/-- A table is found, is long enough and is in the file. -/
def withTable (d : CString) (tag least : Nat) (use : Nat → Loaded) : Loaded :=
  match findTable d tag with
  | none => .fails
  | some t =>
      if t.length < least then .fails
      else
        match tableData d t 0 least with
        | .null => .fails
        | .outside => .outside
        | .at p => use p

/-- One value for each full metric, and the last of them for the other glyphs. -/
def perGlyph (metrics glyphs : Nat) (value : Nat → Int) : List Int :=
  (List.range metrics).map value ++ List.replicate (glyphs - metrics) (value (metrics - 1))

/-- The arrays that `ttf_load` makes of `hmtx`; they have room for `glyphs` values. -/
def loadMetrics (d : CString) (metrics glyphs : Nat) : Metrics :=
  match findTable d tagHmtx with
  | none => .absent
  | some t =>
      if t.length < metrics * 4 then .absent
      else
        match tableData d t 0 (metrics * 4) with
        | .null => .values (List.replicate glyphs 0) (List.replicate glyphs 0)
        | .outside => .outside
        | .at hm =>
            -- index `-1`, or more metrics than the arrays have room for
            if metrics = 0 ∨ glyphs < metrics then .outside
            else
              .values (perGlyph metrics glyphs fun i => int16 (r16 d (hm + i * 4)))
                (perGlyph metrics glyphs fun i => int16 (r16 d (hm + i * 4 + 2)))

/-- `ttf_load` when there is memory. -/
def ttfLoad (d : CString) : Loaded :=
  if d.length < 12 then .fails
  else if 64 < r16 d 4 then .fails
  -- the size is compared as an `int`
  else if (List.range (r16 d 4)).any fun i => int32 d.length < (12 + i * 16 + 16 : Nat) then .fails
  else
    withTable d tagHead 54 fun hp =>
      if r32 d (hp + 12) ≠ 0x5F0F3CF5 then .fails
      else
        withTable d tagMaxp 6 fun mp =>
          withTable d tagHhea 36 fun ha =>
            .font
              { unitsPerEm := r16 d (hp + 18)
                numGlyphs := r16 d (mp + 4)
                locaFormat := if (r16 d (hp + 50)).testBit 8 then 1 else 0
                hheaMetrics := r16 d (ha + 34)
                metrics := loadMetrics d (r16 d (ha + 34)) (r16 d (mp + 4)) }

/-! ## What is expected -/

/-- A tag as its bytes are in a file. -/
def fileTag (a b c d : Nat) : Nat := a * 2 ^ 24 + b * 2 ^ 16 + c * 2 ^ 8 + d

/-- A file has a table, long enough, within its bytes. -/
structure HasTable (d : CString) (tag least : Nat) (t : TtfTable) : Prop where
  found : findTable d tag = some t
  long : least ≤ t.length
  within : t.offset + t.length ≤ d.length

/-- A well-formed file of at most 64 tables, among them these. -/
structure WellFormed (d : CString) (head maxp hhea hmtx : TtfTable) : Prop where
  few : r16 d 4 ≤ 64
  directory : 12 + r16 d 4 * 16 ≤ d.length
  head_table : HasTable d (fileTag 104 101 97 100) 54 head
  maxp_table : HasTable d (fileTag 109 97 120 112) 6 maxp
  hhea_table : HasTable d (fileTag 104 104 101 97) 36 hhea
  hmtx_table : HasTable d (fileTag 104 109 116 120)
    (r16 d (hhea.offset + 34) * 4 + (r16 d (maxp.offset + 4) - r16 d (hhea.offset + 34)) * 2) hmtx
  magic : r32 d (head.offset + 12) = 0x5F0F3CF5
  loca : r16 d (head.offset + 50) = 0 ∨ r16 d (head.offset + 50) = 1
  some_metric : 0 < r16 d (hhea.offset + 34)
  no_more : r16 d (hhea.offset + 34) ≤ r16 d (maxp.offset + 4)

/-- The font says what the tables say. -/
structure Reports (d : CString) (head maxp hhea hmtx : TtfTable) (f : TtfFont) : Prop where
  units : f.unitsPerEm = r16 d (head.offset + 18)
  glyphs : f.numGlyphs = r16 d (maxp.offset + 4)
  loca : f.locaFormat = r16 d (head.offset + 50)
  metrics : ∃ widths bearings, f.metrics = .values widths bearings ∧
    widths = perGlyph (r16 d (hhea.offset + 34)) (r16 d (maxp.offset + 4))
      (fun i => r16 d (hmtx.offset + i * 4)) ∧
    bearings = perGlyph (r16 d (hhea.offset + 34)) (r16 d (maxp.offset + 4))
      (fun i => int16 (r16 d (hmtx.offset + i * 4 + 2)))

/-- A well-formed file is loaded, and the font says what its tables say. -/
def LoadExact (d : CString) : Prop :=
  ∀ head maxp hhea hmtx, WellFormed d head maxp hhea hmtx →
    ∃ f, ttfLoad d = .font f ∧ Reports d head maxp hhea hmtx f

/-- A table under a tag, long enough, as far as it is asked for within the file. -/
def UnderTag (d : CString) (tag least p : Nat) : Prop :=
  ∃ t, findTable d tag = some t ∧ least ≤ t.length ∧ t.offset + least ≤ d.length ∧ t.offset = p

/-- Under the reversed tag of `hmtx` the file has metrics that give each glyph these values; or a
table that begins or ends behind the file, where all values are zero. -/
def SameMetrics (d : CString) (metrics glyphs : Nat) (widths bearings : List Int) : Prop :=
  (∃ hm, UnderTag d tagHmtx (metrics * 4) hm ∧ 0 < metrics ∧ metrics ≤ glyphs ∧
      widths = perGlyph metrics glyphs (fun i => int16 (r16 d (hm + i * 4))) ∧
      bearings = perGlyph metrics glyphs fun i => int16 (r16 d (hm + i * 4 + 2))) ∨
    ∃ t, findTable d tagHmtx = some t ∧ metrics * 4 ≤ t.length ∧
      d.length < (t.offset + metrics * 4) % 2 ^ 32 ∧
      widths = List.replicate glyphs 0 ∧ bearings = List.replicate glyphs 0

/-- The length of the file as an `int` has room for the directory, and under the reversed tags
the file has tables of the same values; the one for `head` has the other byte of the loca format
set if the format is long. -/
def LoadFits (d : CString) : Prop :=
  ∀ head maxp hhea hmtx, WellFormed d head maxp hhea hmtx →
    12 + (r16 d 4 : Int) * 16 ≤ int32 d.length ∧
      ∃ hp mp ha, UnderTag d tagHead 54 hp ∧ UnderTag d tagMaxp 6 mp ∧ UnderTag d tagHhea 36 ha ∧
        r32 d (hp + 12) = 0x5F0F3CF5 ∧
        r16 d (hp + 18) = r16 d (head.offset + 18) ∧
        r16 d (mp + 4) = r16 d (maxp.offset + 4) ∧
        ((r16 d (hp + 50)).testBit 8 = true ↔ r16 d (head.offset + 50) = 1) ∧
        SameMetrics d (r16 d (ha + 34)) (r16 d (maxp.offset + 4))
          (perGlyph (r16 d (hhea.offset + 34)) (r16 d (maxp.offset + 4))
            fun i => r16 d (hmtx.offset + i * 4))
          (perGlyph (r16 d (hhea.offset + 34)) (r16 d (maxp.offset + 4))
            fun i => int16 (r16 d (hmtx.offset + i * 4 + 2)))

/-! ## Reading a table -/

theorem byteAt_lt (d : CString) (i : Nat) : byteAt d i < 2 ^ 8 := UInt8.toNat_lt _

theorem r16_lt (d : CString) (i : Nat) : r16 d i < 2 ^ 16 := by
  have high := byteAt_lt d i
  have low := byteAt_lt d (i + 1)
  rw [r16]
  omega

/-- `table_data` for the first bytes of a table that has them. -/
theorem tableData_spec {d : CString} {t : TtfTable} {least : Nat} (small : least < 2 ^ 32)
    (long : least ≤ t.length) :
    (∀ p, tableData d t 0 least = .at p ↔ t.offset + least ≤ d.length ∧ t.offset = p) ∧
      (tableData d t 0 least = .null ↔ d.length < (t.offset + least) % 2 ^ 32) := by
  have not_short : ¬ t.length < least := Nat.not_lt.2 long
  have wraps := Nat.mod_le (t.offset + least) (2 ^ 32)
  rw [tableData, Nat.zero_add, Nat.add_zero, Nat.mod_eq_of_lt small, if_neg not_short]
  generalize (t.offset + least) % 2 ^ 32 = wrapped at wraps
  by_cases behind : d.length < wrapped
  · have not_within : ¬ t.offset + least ≤ d.length := by omega
    simp [behind, not_within]
  · rw [if_neg behind]
    by_cases within : t.offset + least ≤ d.length
    · simp [within, behind]
    · simp [within, behind]

theorem withTable_eq_font {d : CString} {tag least : Nat} {use : Nat → Loaded} {f : TtfFont}
    (small : least < 2 ^ 32) :
    withTable d tag least use = .font f ↔ ∃ p, UnderTag d tag least p ∧ use p = .font f := by
  rw [withTable]
  cases found : findTable d tag with
  | none => simp [UnderTag, found]
  | some t =>
      by_cases short : t.length < least
      · have not_long : ¬ least ≤ t.length := Nat.not_le.2 short
        simp [UnderTag, found, short, not_long]
      · obtain ⟨at_iff, -⟩ := tableData_spec (d := d) small (Nat.not_lt.1 short)
        simp only [if_neg short]
        -- without bytes to use there is no font
        have nowhere : (∀ p, tableData d t 0 least ≠ .at p) →
            ¬ ∃ p, UnderTag d tag least p ∧ use p = .font f := by
          rintro no_data ⟨p, ⟨u, same, -, within, start⟩, -⟩
          rw [found] at same
          cases same
          exact no_data p ((at_iff p).2 ⟨within, start⟩)
        cases data : tableData d t 0 least with
        | null => exact iff_of_false (fun fails => nomatch fails) (nowhere (by simp [data]))
        | outside => exact iff_of_false (fun fails => nomatch fails) (nowhere (by simp [data]))
        | «at» p =>
            obtain ⟨within, start⟩ := (at_iff p).1 data
            constructor
            · intro used
              exact ⟨p, ⟨t, found, Nat.not_lt.1 short, within, start⟩, used⟩
            · rintro ⟨q, ⟨u, same, -, -, start'⟩, used⟩
              rw [found] at same
              cases same
              rw [← start', start] at used
              exact used

theorem loadMetrics_eq_values {d : CString} {metrics glyphs : Nat} {widths bearings : List Int}
    (small : metrics < 2 ^ 16) :
    loadMetrics d metrics glyphs = .values widths bearings ↔
      SameMetrics d metrics glyphs widths bearings := by
  rw [loadMetrics, SameMetrics]
  cases found : findTable d tagHmtx with
  | none => simp [UnderTag, found]
  | some t =>
      by_cases short : t.length < metrics * 4
      · have not_long : ¬ metrics * 4 ≤ t.length := Nat.not_le.2 short
        simp [UnderTag, found, short, not_long]
      · have long := Nat.not_lt.1 short
        obtain ⟨at_iff, null_iff⟩ := tableData_spec (d := d)
          (show metrics * 4 < 2 ^ 32 by omega) long
        have behind_or : d.length < (t.offset + metrics * 4) % 2 ^ 32 →
            ¬ t.offset + metrics * 4 ≤ d.length := by
          have wraps := Nat.mod_le (t.offset + metrics * 4) (2 ^ 32)
          omega
        simp only [if_neg short, UnderTag, found, Option.some.injEq, exists_eq_left', long,
          true_and]
        generalize (t.offset + metrics * 4) % 2 ^ 32 = wrapped at null_iff behind_or ⊢
        cases data : tableData d t 0 (metrics * 4) with
        | null =>
            have behind := null_iff.1 data
            have not_within := behind_or behind
            simp [behind, not_within, eq_comm]
        | outside =>
            have not_within : ¬ t.offset + metrics * 4 ≤ d.length := fun within => by
              rw [(at_iff t.offset).2 ⟨within, rfl⟩] at data
              cases data
            have not_behind : ¬ d.length < wrapped := fun behind => by
              rw [null_iff.2 behind] at data
              cases data
            simp [not_behind, not_within]
        | «at» p =>
            obtain ⟨within, rfl⟩ := (at_iff p).1 data
            have not_behind : ¬ d.length < wrapped :=
              fun behind => behind_or behind within
            by_cases wrong : metrics = 0 ∨ glyphs < metrics
            · have not_right : ¬ (0 < metrics ∧ metrics ≤ glyphs) := by omega
              simp only [if_pos wrong]
              constructor
              · intro fails
                cases fails
              · rintro (⟨hm, -, some_metric, no_more, -⟩ | ⟨behind, -⟩)
                · exact absurd ⟨some_metric, no_more⟩ not_right
                · exact absurd behind not_behind
            · have some_metric : 0 < metrics := by omega
              have no_more : metrics ≤ glyphs := by omega
              simp [wrong, within, not_behind, some_metric, no_more, eq_comm]

/-! ## Loading -/

/-- There is a table in a directory of tables. -/
theorem tables_pos {d : CString} {tag : Nat} {t : TtfTable} (found : findTable d tag = some t) :
    0 < r16 d 4 := by
  by_contra none_there
  have no_tables : r16 d 4 = 0 := by omega
  rw [findTable, ttfTables, no_tables] at found
  cases found

/-- The directory is taken to be in the file. -/
theorem directory_iff {n : Nat} {size : Int} (some_table : 0 < n) :
    (List.range n).any (fun i => size < (12 + i * 16 + 16 : Nat)) = false ↔
      12 + (n : Int) * 16 ≤ size := by
  rw [List.any_eq_false]
  constructor
  · intro fits
    have last := fits (n - 1) (List.mem_range.2 (by omega))
    simp only [decide_eq_true_eq, not_lt] at last
    omega
  · intro fits i mem
    rw [List.mem_range] at mem
    simp only [decide_eq_true_eq, not_lt]
    omega

/-- A font is made of the tables under the tags of `ttf_load`. -/
theorem ttfLoad_eq_font {d : CString} {f : TtfFont} (some_table : 0 < r16 d 4)
    (few : r16 d 4 ≤ 64) (long : 12 ≤ d.length) :
    ttfLoad d = .font f ↔
      12 + (r16 d 4 : Int) * 16 ≤ int32 d.length ∧
        ∃ hp, UnderTag d tagHead 54 hp ∧ r32 d (hp + 12) = 0x5F0F3CF5 ∧
          ∃ mp, UnderTag d tagMaxp 6 mp ∧ ∃ ha, UnderTag d tagHhea 36 ha ∧
            f = ⟨r16 d (hp + 18), r16 d (mp + 4), if (r16 d (hp + 50)).testBit 8 then 1 else 0,
              r16 d (ha + 34), loadMetrics d (r16 d (ha + 34)) (r16 d (mp + 4))⟩ := by
  rw [ttfLoad, if_neg (Nat.not_lt.2 long), if_neg (Nat.not_lt.2 few), ← directory_iff some_table]
  cases directory : (List.range (r16 d 4)).any
      fun i => int32 d.length < (12 + i * 16 + 16 : Nat) with
  | true => simp
  | false =>
      rw [if_neg Bool.false_ne_true, withTable_eq_font (by decide)]
      simp only [true_and]
      refine exists_congr fun hp => and_congr_right fun _ => ?_
      by_cases magic : r32 d (hp + 12) = 0x5F0F3CF5
      · rw [if_neg (not_not_intro magic), withTable_eq_font (by decide)]
        simp only [magic, true_and]
        refine exists_congr fun mp => and_congr_right fun _ => ?_
        rw [withTable_eq_font (by decide)]
        refine exists_congr fun ha => and_congr_right fun _ => ?_
        rw [Loaded.font.injEq, eq_comm]
      · rw [if_pos magic]
        simp [magic]

/-- The format is long when the bit is set exactly if the field is one. -/
theorem loca_iff {set : Bool} {format : Nat} (known : format = 0 ∨ format = 1) :
    (if set then 1 else 0) = format ↔ (set = true ↔ format = 1) := by
  rcases known with rfl | rfl
  · cases set
    · simp
    · simp
  · cases set
    · simp
    · simp

/-- A well-formed file is loaded as it is exactly if it says the same under the reversed tags. -/
theorem ttf_load_iff (d : CString) : LoadExact d ↔ LoadFits d := by
  refine forall_congr' fun head => forall_congr' fun maxp => forall_congr' fun hhea =>
    forall_congr' fun hmtx => forall_congr' fun formed => ?_
  have some_table := tables_pos formed.head_table.found
  have long : 12 ≤ d.length := le_trans (Nat.le_add_right ..) formed.directory
  constructor
  · rintro ⟨f, loaded, units, glyphs, loca, widths, bearings, metrics, rfl, rfl⟩
    obtain ⟨room, hp, head_at, magic, mp, maxp_at, ha, hhea_at, rfl⟩ :=
      (ttfLoad_eq_font some_table formed.few long).1 loaded
    refine ⟨room, hp, mp, ha, head_at, maxp_at, hhea_at, magic, units, glyphs,
      (loca_iff formed.loca).1 loca, ?_⟩
    simp only at metrics glyphs
    rw [glyphs] at metrics
    exact (loadMetrics_eq_values (r16_lt _ _)).1 metrics
  · rintro ⟨room, hp, mp, ha, head_at, maxp_at, hhea_at, magic, units, glyphs, loca, same⟩
    refine ⟨_, (ttfLoad_eq_font some_table formed.few long).2
      ⟨room, hp, head_at, magic, mp, maxp_at, ha, hhea_at, rfl⟩, units, glyphs,
      (loca_iff formed.loca).2 loca, _, _, ?_, rfl, rfl⟩
    simp only
    rw [glyphs]
    exact (loadMetrics_eq_values (r16_lt _ _)).2 same

/-- The directory entry of a table. -/
def sampleEntry (a b c d offset length : UInt8) : CString :=
  [a, b, c, d, 0, 0, 0, 0, 0, 0, 0, offset, 0, 0, 0, length]

/-- A font of one glyph: `head`, `hhea`, `hmtx` and `maxp`. -/
def sampleFont : CString :=
  [0, 1, 0, 0, 0, 4, 0, 0, 0, 0, 0, 0] ++ sampleEntry 104 101 97 100 76 54 ++
    sampleEntry 104 104 101 97 130 36 ++ sampleEntry 104 109 116 120 166 4 ++
    sampleEntry 109 97 120 112 170 6 ++ List.replicate 12 0 ++ [0x5F, 0x0F, 0x3C, 0xF5] ++
    [0, 0, 3, 232] ++ List.replicate 34 0 ++ List.replicate 34 0 ++ [0, 1] ++ [1, 244, 0, 0] ++
    [0, 1, 0, 0, 0, 1]

/-- A font with the four tables is not loaded. -/
theorem font_not_loaded : ¬ ∀ d, LoadExact d := by
  intro always
  have formed : WellFormed sampleFont ⟨fileTag 104 101 97 100, 76, 54⟩
      ⟨fileTag 109 97 120 112, 170, 6⟩ ⟨fileTag 104 104 101 97, 130, 36⟩ ⟨fileTag 104 109 116 120, 166, 4⟩ :=
    ⟨by decide +kernel, by decide +kernel,
      ⟨by decide +kernel, by decide +kernel, by decide +kernel⟩,
      ⟨by decide +kernel, by decide +kernel, by decide +kernel⟩,
      ⟨by decide +kernel, by decide +kernel, by decide +kernel⟩,
      ⟨by decide +kernel, by decide +kernel, by decide +kernel⟩,
      by decide +kernel, by decide +kernel, by decide +kernel, by decide +kernel⟩
  obtain ⟨f, loaded, -⟩ := always sampleFont _ _ _ _ formed
  have fails : ttfLoad sampleFont = .fails := by decide +kernel
  rw [fails] at loaded
  cases loaded

end NTux.Libc
