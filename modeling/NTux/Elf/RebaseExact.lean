import NTux.Elf.Rebase

/-!
# What moving an image comes to

The image is to be moved by one distance, in 64 bits, so that its lowest page is the base.
`rebase_elf_image_inplace` adds the distance without letting a sum wrap.  An image linked
above the base has a distance that is all but 2^64, so its first segment is refused, after
the entry point has been changed.

* `Relocatable` — the images that should be moved.
* `Translated`, `RebaseSucceeds` — what moving them should come to.
* `MovesUp` — the image is at the base or below, and no field wraps.
* `RefusedLate` — a header is refused after the entry point has been changed.
-/

namespace NTux.Elf

open NTux.Lib NTux.Lib.Bytes NTux.Mm

/-! ## What is claimed -/

/-- A header to be moved: `PT_LOAD`, and with memory unless `empties` counts those without. -/
def Phdr.moves (empties : Bool) (ph : Phdr) : Bool := ph.type = ptLoad && (empties || ph.memsz ≠ 0)

/-- The image `p'` is `p` with its entry point and its segments moved, and nothing else. -/
structure Translated (empties : Bool) (delta : Nat) (p p' : Bytes) : Prop where
  entry : (ehdrOf p').entry = wrap64 ((ehdrOf p).entry + delta)
  segment : ∀ i < (ehdrOf p).phnum, (phdrAt p (phdrOffset p i)).moves empties = true →
    (phdrAt p' (phdrOffset p i)).vaddr = wrap64 ((phdrAt p (phdrOffset p i)).vaddr + delta) ∧
      paddrAt p' (phdrOffset p i) = wrap64 (paddrAt p (phdrOffset p i) + delta)
  rest : ∀ k, k < 24 ∨ 32 ≤ k →
    (∀ i < (ehdrOf p).phnum, (phdrAt p (phdrOffset p i)).moves empties = true →
      k < phdrOffset p i + 16 ∨ phdrOffset p i + 32 ≤ k) → p' k = p k

/-- A position-independent image with valid tables, whose load span with stack and heap
fits in the dynamic range, and a free slot. -/
structure Relocatable (img : Image) (slots : Slots) : Prop where
  type : (ehdrOf img.bytes).type ≠ 2
  table : tableReadable img.bytes img.size = true
  span : ∃ rawStart rawEnd span, extractElfLoadRangeRaw img.bytes img.size = some (rawStart, rawEnd) ∧
    imageSpan rawStart rawEnd = some span ∧ aslrMin + span ≤ aslrMax
  slot : none ∈ slots

/-- The image is moved so that its lowest page is the base, and the range reported contains
every segment. -/
def RebaseSucceeds (empties : Bool) (img : Image) (slots : Slots) : Prop :=
  ∃ start stop slot delta, (rebaseInPlace img slots).range = some (start, stop, slot) ∧
    start = aslrMin ∧ delta < 2 ^ 64 ∧
    Translated empties delta img.bytes (rebaseInPlace img slots).bytes ∧
    (∃ i < (ehdrOf img.bytes).phnum, (phdrAt img.bytes (phdrOffset img.bytes i)).loads = true ∧
      alignDownPage (phdrAt (rebaseInPlace img slots).bytes (phdrOffset img.bytes i)).vaddr = start) ∧
    ∀ i < (ehdrOf img.bytes).phnum, (phdrAt img.bytes (phdrOffset img.bytes i)).loads = true →
      start ≤ (phdrAt (rebaseInPlace img slots).bytes (phdrOffset img.bytes i)).vaddr ∧
        (phdrAt (rebaseInPlace img slots).bytes (phdrOffset img.bytes i)).vaddr +
          (phdrAt img.bytes (phdrOffset img.bytes i)).memsz ≤ stop

/-- The image begins at the base; or it begins below, and neither the entry point nor a
physical address wraps when the distance is added.  Segments without memory are not moved. -/
def MovesUp (empties : Bool) (img : Image) : Prop :=
  ∀ rawStart rawEnd, extractElfLoadRangeRaw img.bytes img.size = some (rawStart, rawEnd) →
    rawStart = aslrMin ∨
      rawStart < aslrMin ∧ (ehdrOf img.bytes).entry + (aslrMin - rawStart) < 2 ^ 64 ∧
        (∀ i < (ehdrOf img.bytes).phnum, (phdrAt img.bytes (phdrOffset img.bytes i)).loads = true →
          paddrAt img.bytes (phdrOffset img.bytes i) + (aslrMin - rawStart) < 2 ^ 64) ∧
        (empties = true → ∀ i < (ehdrOf img.bytes).phnum,
          (phdrAt img.bytes (phdrOffset img.bytes i)).type = ptLoad →
            (phdrAt img.bytes (phdrOffset img.bytes i)).memsz ≠ 0)

/-- A base is chosen that is not that of the image, the entry point can be moved, and a segment
cannot. -/
def RefusedLate (img : Image) (slots : Slots) : Prop :=
  tableReadable img.bytes img.size = true ∧ (ehdrOf img.bytes).type ≠ 2 ∧
    ∃ rawStart rawEnd span r, extractElfLoadRangeRaw img.bytes img.size = some (rawStart, rawEnd) ∧
      imageSpan rawStart rawEnd = some span ∧ chooseDynamicUserBase slots span = some r ∧
      rawStart ≠ aslrMin ∧ (ehdrOf img.bytes).entry + rebaseDelta rawStart < 2 ^ 64 ∧
      ∃ i < (ehdrOf img.bytes).phnum, (phdrAt img.bytes (phdrOffset img.bytes i)).loads = true ∧
        ¬ PhdrFits (rebaseDelta rawStart) img.bytes (phdrOffset img.bytes i)

/-! ## The load range -/

/-- What the loop of `extract_elf_load_range_raw` finds: bounds of all segments, the lower of
them attained. -/
theorem loadRange_spec {l : List Phdr} {start stop a b : Nat} {found c : Bool}
    (low : ∀ ph ∈ l, ph.vaddr < 2 ^ 64 ∧ ph.memsz < 2 ^ 64)
    (eq : loadRange l (start, stop, found) = some (a, b, c)) :
    (∀ ph ∈ l, ph.loads = true → a ≤ ph.vaddr ∧ ph.vaddr + ph.memsz ≤ b) ∧ a ≤ start ∧ stop ≤ b ∧
      (a = start ∨ ∃ ph ∈ l, ph.loads = true ∧ ph.vaddr = a) ∧
      (c = true → found = true ∨ ∃ ph ∈ l, ph.loads = true) ∧ (stop < 2 ^ 64 → b < 2 ^ 64) := by
  induction l generalizing start stop found with
  | nil =>
      cases eq
      exact ⟨fun ph mem => absurd mem List.not_mem_nil, le_refl _, le_refl _, .inl rfl, .inl, id⟩
  | cons ph l ih =>
      have rest_low : ∀ ph ∈ l, ph.vaddr < 2 ^ 64 ∧ ph.memsz < 2 ^ 64 :=
        fun x mem => low x (List.mem_cons_of_mem _ mem)
      unfold loadRange at eq
      split at eq
      next skipped =>
        obtain ⟨bounds, le, ge, attained, some_found, width⟩ := ih rest_low eq
        have none_here : ph.loads = false := by
          cases h : ph.loads with
          | false => rfl
          | true => exact absurd skipped ((loads_iff ph).mp h)
        refine ⟨?_, le, ge, attained.imp_right ?_, fun h => (some_found h).imp_right ?_, width⟩
        · intro x mem loads
          rcases List.mem_cons.1 mem with rfl | later
          · rw [none_here] at loads
            cases loads
          · exact bounds x later loads
        · rintro ⟨x, mem, here⟩
          exact ⟨x, List.mem_cons_of_mem _ mem, here⟩
        · rintro ⟨x, mem, here⟩
          exact ⟨x, List.mem_cons_of_mem _ mem, here⟩
      next loads_not =>
        have loads : ph.loads = true := (loads_iff ph).mpr loads_not
        dsimp only at eq
        split at eq
        next => cases eq
        next no_wrap =>
          obtain ⟨bounds, le, ge, attained, -, width⟩ := ih rest_low eq
          have vaddr := low ph List.mem_cons_self
          have whole : wrap64 (ph.vaddr + ph.memsz) = ph.vaddr + ph.memsz := by
            unfold wrap64 at no_wrap ⊢
            omega
          have le_start : a ≤ start ∧ a ≤ ph.vaddr := by
            split at le <;> omega
          have ge_stop : stop ≤ b ∧ wrap64 (ph.vaddr + ph.memsz) ≤ b := by
            split at ge <;> omega
          refine ⟨?_, le_start.1, ge_stop.1, ?_, fun _ => .inr ⟨ph, List.mem_cons_self, loads⟩, ?_⟩
          · intro x mem x_loads
            rcases List.mem_cons.1 mem with rfl | later
            · exact ⟨le_start.2, whole ▸ ge_stop.2⟩
            · exact bounds x later x_loads
          · rcases attained with here | ⟨x, mem, here⟩
            · split at here
              · exact .inr ⟨ph, List.mem_cons_self, loads, here.symm⟩
              · exact .inl here
            · exact .inr ⟨x, List.mem_cons_of_mem _ mem, here⟩
          · intro small
            refine width ?_
            split
            · exact Nat.mod_lt _ (by decide)
            · exact small

section Range

variable {img : Image} {slots slots' : Slots} {rawStart rawEnd span slot : Nat}

/-- The range of an image: whole pages around its segments, the lowest of them in its first
page. -/
theorem extract_spec
    (eq : extractElfLoadRangeRaw img.bytes img.size = some (rawStart, rawEnd)) :
    (∀ i < (ehdrOf img.bytes).phnum, (phdrAt img.bytes (phdrOffset img.bytes i)).loads = true →
      rawStart ≤ (phdrAt img.bytes (phdrOffset img.bytes i)).vaddr ∧
        (phdrAt img.bytes (phdrOffset img.bytes i)).vaddr +
          (phdrAt img.bytes (phdrOffset img.bytes i)).memsz ≤ rawEnd) ∧
      (∃ i < (ehdrOf img.bytes).phnum, (phdrAt img.bytes (phdrOffset img.bytes i)).loads = true ∧
        alignDownPage (phdrAt img.bytes (phdrOffset img.bytes i)).vaddr = rawStart) ∧
      rawStart < rawEnd ∧ rawEnd < 2 ^ 64 ∧ rawStart % pageSize = 0 ∧ rawEnd % pageSize = 0 := by
  unfold extractElfLoadRangeRaw at eq
  split at eq
  next => cases eq
  next =>
    dsimp only at eq
    split at eq
    next first last ranged =>
      split at eq
      next nonempty =>
        obtain ⟨rfl, rfl⟩ := Prod.mk.inj (Option.some.inj eq)
        have member : ∀ ph, ph ∈ (List.range (ehdrOf img.bytes).phnum).map (fun i =>
            phdrAt img.bytes ((ehdrOf img.bytes).phoff + i * phdrSize)) ↔
            ∃ i < (ehdrOf img.bytes).phnum, phdrAt img.bytes (phdrOffset img.bytes i) = ph := by
          intro ph
          simp only [List.mem_map, List.mem_range]
          rfl
        obtain ⟨bounds, le, -, attained, found, width⟩ := loadRange_spec (by
          intro ph mem
          obtain ⟨i, -, rfl⟩ := (member ph).mp mem
          exact ⟨rd64_lt, rd64_lt⟩) ranged
        have page : pageSize = 4096 := rfl
        have small : last < 2 ^ 64 := width (by decide)
        have top : last ≤ alignUpPage last := by
          simp only [alignUpPage, alignDownPage, wrap64, page] at nonempty ⊢
          omega
        refine ⟨?_, ?_, nonempty, ?_, Nat.mul_mod_left _ _, Nat.mul_mod_left _ _⟩
        · intro i lt loads
          have inside := bounds _ ((member _).mpr ⟨i, lt, rfl⟩) loads
          have down : alignDownPage first ≤ first := Nat.div_mul_le_self _ _
          exact ⟨down.trans inside.1, inside.2.trans top⟩
        · rcases attained with here | ⟨ph, mem, loads, here⟩
          · obtain ⟨ph, mem, loads⟩ := (found rfl).resolve_left (by decide)
            obtain ⟨i, lt, rfl⟩ := (member ph).mp mem
            refine ⟨i, lt, loads, ?_⟩
            have inside := (bounds _ mem loads).1
            have width : (phdrAt img.bytes (phdrOffset img.bytes i)).vaddr < 2 ^ 64 := rd64_lt
            rw [show (phdrAt img.bytes (phdrOffset img.bytes i)).vaddr = first by omega]
          · obtain ⟨i, lt, rfl⟩ := (member ph).mp mem
            exact ⟨i, lt, loads, by rw [here]⟩
        · have cut : wrap64 (last + 0xFFF) / pageSize * pageSize ≤ wrap64 (last + 0xFFF) :=
            Nat.div_mul_le_self _ _
          have width : wrap64 (last + 0xFFF) < 2 ^ 64 := Nat.mod_lt _ (by decide)
          exact lt_of_le_of_lt cut width
      next => cases eq
    next => cases eq

/-- The span of whole pages. -/
theorem imageSpan_eq (start : rawStart % pageSize = 0) (stop : rawEnd % pageSize = 0)
    (fits : rawEnd < 2 ^ 64) (eq : imageSpan rawStart rawEnd = some span) :
    span = rawEnd - rawStart + rangeExtraBytes := by
  have page : pageSize = 4096 := rfl
  have down : alignDownPage rawStart = rawStart := Nat.div_mul_cancel (Nat.dvd_of_mod_eq_zero start)
  have up : alignUpPage rawEnd = rawEnd := by
    unfold alignUpPage wrap64
    rw [page] at stop ⊢
    omega
  unfold imageSpan at eq
  dsimp only at eq
  rw [down, up] at eq
  split at eq
  next => cases eq
  next => exact (Option.some.inj eq).symm

/-- Where a base is chosen, the end of the function is reached. -/
theorem rebaseInPlace_eq {base : Nat} (table : tableReadable img.bytes img.size = true)
    (type : (ehdrOf img.bytes).type ≠ 2)
    (range : extractElfLoadRangeRaw img.bytes img.size = some (rawStart, rawEnd))
    (spanned : imageSpan rawStart rawEnd = some span)
    (chosen : chooseDynamicUserBase slots span = some (base, slot, slots')) :
    rebaseInPlace img slots = rebaseTo img.bytes rawStart span slot slots' := by
  unfold rebaseInPlace
  dsimp only
  rw [if_neg (by simp [table]), range]
  dsimp only
  rw [spanned]
  dsimp only
  rw [if_neg type, chosen]

/-- An image with room and a slot gets the base. -/
theorem Relocatable.chosen (ok : Relocatable img slots) (lt : aslrMin + span ≤ aslrMax)
    (whole : span % pageSize = 0) :
    ∃ slot slots', chooseDynamicUserBase slots span = some (aslrMin, slot, slots') := by
  have page : pageSize = 4096 := rfl
  have up : alignUpPage span = span := by
    unfold alignUpPage wrap64 aslrMin aslrMax at *
    rw [page] at whole ⊢
    omega
  have room : wrap64 (aslrMin + span) ≤ aslrMax := (Nat.mod_le _ _).trans lt
  have free : (slots.findIdx? (· = none)).isSome = true := by
    rw [List.findIdx?_isSome]
    exact List.any_eq_true.mpr ⟨none, ok.slot, by simp⟩
  obtain ⟨slot, found⟩ := Option.isSome_iff_exists.mp free
  refine ⟨slot, slots.set slot (some (aslrMin, wrap64 (aslrMin + span))), ?_⟩
  unfold chooseDynamicUserBase reserveUserRangeSlot
  dsimp only
  rw [up, if_pos room, found]
  rfl

end Range

/-! ## The end of the function -/

section Move

variable {p : Bytes} {rawStart span slot : Nat} {slots : Slots}

theorem rebaseDelta_lt : rebaseDelta rawStart < 2 ^ 64 := Nat.mod_lt _ (by decide)

/-- Storing the entry point leaves the other fields of the header, and what is behind it. -/
theorem entry_frame (behind : 64 ≤ (ehdrOf p).phoff) (v : Nat) :
    (ehdrOf (wr64 p 24 v)).phoff = (ehdrOf p).phoff ∧
      (ehdrOf (wr64 p 24 v)).phnum = (ehdrOf p).phnum ∧
      ∀ i, phdrAt (wr64 p 24 v) (phdrOffset p i) = phdrAt p (phdrOffset p i) ∧
        paddrAt (wr64 p 24 v) (phdrOffset p i) = paddrAt p (phdrOffset p i) := by
  refine ⟨rd64_same fun j ge _ => wr64_of_apart (by omega),
    rd16_same fun j ge _ => wr64_of_apart (by omega), fun i => ?_⟩
  have far : 64 ≤ phdrOffset p i := by
    unfold phdrOffset
    omega
  exact ⟨phdrAt_same fun j ge _ => wr64_of_apart (by omega),
    rd64_same fun j ge _ => wr64_of_apart (by omega)⟩

/-- What the end of the function does to an image that is not at the base: it is refused at
the entry point, refused at a segment, or moved. -/
theorem rebaseTo_cases (span slot : Nat) (slots : Slots) (behind : 64 ≤ (ehdrOf p).phoff) (ne : aslrMin ≠ rawStart) :
    ((rebaseTo p rawStart span slot slots).range = none ∧
        (rebaseTo p rawStart span slot slots).bytes = p ∧
        2 ^ 64 ≤ (ehdrOf p).entry + rebaseDelta rawStart) ∨
      ((rebaseTo p rawStart span slot slots).range = none ∧
        (ehdrOf (rebaseTo p rawStart span slot slots).bytes).entry =
          (ehdrOf p).entry + rebaseDelta rawStart ∧
        (ehdrOf p).entry + rebaseDelta rawStart < 2 ^ 64 ∧
        ∃ i < (ehdrOf p).phnum, (phdrAt p (phdrOffset p i)).loads = true ∧
          ¬ PhdrFits (rebaseDelta rawStart) p (phdrOffset p i)) ∨
      ((rebaseTo p rawStart span slot slots).range =
          some (aslrMin, wrap64 (aslrMin + span), slot) ∧
        (ehdrOf p).entry + rebaseDelta rawStart < 2 ^ 64 ∧
        (∀ i < (ehdrOf p).phnum, (phdrAt p (phdrOffset p i)).loads = true →
          PhdrFits (rebaseDelta rawStart) p (phdrOffset p i)) ∧
        (ehdrOf (rebaseTo p rawStart span slot slots).bytes).entry =
          (ehdrOf p).entry + rebaseDelta rawStart ∧
        (∀ i < (ehdrOf p).phnum, (phdrAt p (phdrOffset p i)).loads = true →
          (phdrAt (rebaseTo p rawStart span slot slots).bytes (phdrOffset p i)).vaddr =
              (phdrAt p (phdrOffset p i)).vaddr + rebaseDelta rawStart ∧
            paddrAt (rebaseTo p rawStart span slot slots).bytes (phdrOffset p i) =
              paddrAt p (phdrOffset p i) + rebaseDelta rawStart) ∧
        ∀ k, k < 24 ∨ 32 ≤ k → (∀ i < (ehdrOf p).phnum, (phdrAt p (phdrOffset p i)).loads = true →
          k < phdrOffset p i + 16 ∨ phdrOffset p i + 32 ≤ k) →
            (rebaseTo p rawStart span slot slots).bytes k = p k) := by
  have base : alignDownPage aslrMin = aslrMin := by decide
  have delta : rebaseDelta rawStart < 2 ^ 64 := rebaseDelta_lt
  unfold rebaseTo
  dsimp only
  rw [if_neg ne, base]
  by_cases entry : (ehdrOf p).entry + rebaseDelta rawStart < 2 ^ 64
  · right
    rw [if_neg (by omega)]
    obtain ⟨phoff, phnum, phdrs⟩ := entry_frame behind ((ehdrOf p).entry + rebaseDelta rawStart)
    have count : (ehdrOf p).phnum ≤ 0 + 65536 := by
      have : (ehdrOf p).phnum < 65536 := rd16_lt
      omega
    obtain ⟨ends, moves, before⟩ := @rebasePhdrsLeft_spec (ehdrOf p).phoff _ _ 65536 0 _ behind delta phnum count
    rw [phoff]
    generalize rebasePhdrsLeft (ehdrOf p).phoff (rebaseDelta rawStart) 65536 0
      (wr64 p 24 ((ehdrOf p).entry + rebaseDelta rawStart)) = r at ends moves before ⊢
    have entry_kept : (ehdrOf r.2).entry = (ehdrOf p).entry + rebaseDelta rawStart := by
      show rd64 r.2 24 = _
      rw [rd64_same fun j _ lt => before j (by omega), rd64_wr64 entry]
    have offset : ∀ i, (ehdrOf p).phoff + i * phdrSize = phdrOffset p i := fun i => rfl
    simp only [offset, phdrs, PhdrFits, Nat.zero_le, true_implies] at ends
    cases ended : r.1 with
    | false =>
        left
        have refused := (not_congr ends).mp (by simp [ended])
        simp only [not_forall] at refused
        obtain ⟨i, lt, loads, unfit⟩ := refused
        exact ⟨rfl, entry_kept, entry, i, lt, loads, unfit⟩
    | true =>
        right
        have all := moves ended
        refine ⟨rfl, entry, ends.mp ended, entry_kept, ?_, ?_⟩
        · intro i lt loads
          have here := all.moved i (Nat.zero_le i) lt (by rw [offset, (phdrs i).1]; exact loads)
          rw [offset, (phdrs i).1, (phdrs i).2] at here
          exact here
        · intro k header apart
          show r.2 k = p k
          rw [all.rest k fun i _ lt loads => apart i lt (by
            rw [offset, (phdrs i).1] at loads; exact loads)]
          exact wr64_of_apart (by omega)
  · left
    rw [if_pos (by omega)]
    exact ⟨rfl, rfl, by omega⟩

end Move

/-! ## The exact conditions -/

section Exact

variable {img : Image} {slots : Slots}

theorem loads_moves {ph : Phdr} {empties : Bool} (loads : ph.loads = true) :
    ph.moves empties = true := by
  obtain ⟨type, memsz⟩ := Bool.and_eq_true_iff.mp loads
  exact Bool.and_eq_true_iff.mpr ⟨type, by rw [memsz, Bool.or_true]⟩

/-- The distance of an image that lies below the base. -/
theorem rebaseDelta_below {rawStart : Nat} (below : rawStart < aslrMin) :
    rebaseDelta rawStart = aslrMin - rawStart := by
  unfold rebaseDelta wrap64 aslrMin at *
  omega

/-- The distance of one that lies above it, with which no address above the base fits. -/
theorem rebaseDelta_above {rawStart v : Nat} (above : aslrMin < rawStart) (fits : rawStart < 2 ^ 64)
    (ge : rawStart ≤ v) : 2 ^ 64 ≤ v + rebaseDelta rawStart := by
  unfold rebaseDelta wrap64 aslrMin at *
  omega

/-- The lowest page comes to lie at the base. -/
theorem alignDownPage_moved {v rawStart : Nat} (page : alignDownPage v = rawStart)
    (below : rawStart < aslrMin) : alignDownPage (v + (aslrMin - rawStart)) = aslrMin := by
  have size : pageSize = 4096 := rfl
  obtain ⟨pages, base⟩ : ∃ pages, aslrMin = 4096 * pages := ⟨352, rfl⟩
  simp only [alignDownPage, size, base] at page below ⊢
  have multiple : v + (4096 * pages - rawStart) = 4096 * pages + v % 4096 := by omega
  rw [multiple, Nat.mul_add_div (by decide), Nat.div_eq_of_lt (Nat.mod_lt _ (by decide)),
    Nat.add_zero, Nat.mul_comm]

/-- A header that does not load is as it was, its address included. -/
theorem vaddr_kept {p p' : Bytes} {i : Nat} (behind : 64 ≤ (ehdrOf p).phoff)
    (rest : ∀ k, k < 24 ∨ 32 ≤ k →
      (∀ i < (ehdrOf p).phnum, (phdrAt p (phdrOffset p i)).loads = true →
        k < phdrOffset p i + 16 ∨ phdrOffset p i + 32 ≤ k) → p' k = p k)
    (stays : (phdrAt p (phdrOffset p i)).loads ≠ true) :
    (phdrAt p' (phdrOffset p i)).vaddr = (phdrAt p (phdrOffset p i)).vaddr := by
  refine rd64_same fun k ge lt => rest k ?_ ?_
  · unfold phdrOffset at ge
    omega
  · intro j _ loads
    have ne : j ≠ i := by
      rintro rfl
      exact stays loads
    have := @phdr_apart (ehdrOf p).phoff _ _ ne
    unfold phdrOffset at ge lt ⊢
    omega

/-- An image that can be relocated is moved as it should exactly if it moves up without a
field that wraps. -/
theorem rebaseSucceeds_iff (behind : 64 ≤ (ehdrOf img.bytes).phoff)
    (ok : Relocatable img slots) (empties : Bool) :
    RebaseSucceeds empties img slots ↔ MovesUp empties img := by
  obtain ⟨rawStart, rawEnd, span, range, spanned, room⟩ := ok.span
  obtain ⟨bounds, ⟨low, low_lt, low_loads, low_page⟩, nonempty, end_lt, start_page, end_page⟩ :=
    extract_spec range
  have span_eq := imageSpan_eq start_page end_page end_lt spanned
  have page : pageSize = 4096 := rfl
  have whole : span % pageSize = 0 := by
    rw [page] at start_page end_page ⊢
    unfold rangeExtraBytes at span_eq
    omega
  obtain ⟨slot, slots', chosen⟩ := ok.chosen room whole
  have reached := rebaseInPlace_eq ok.table ok.type range spanned chosen
  have stop : wrap64 (aslrMin + span) = aslrMin + span := by
    unfold wrap64 aslrMin aslrMax at *
    omega
  have align : alignDownPage aslrMin = aslrMin := by decide
  have low_start := (bounds low low_lt low_loads).1
  unfold RebaseSucceeds
  rw [reached]
  constructor
  · rintro ⟨_, _, _, delta, ranged, rfl, small, translated, -, -⟩ rawStart' rawEnd' range'
    obtain ⟨rfl, rfl⟩ := Prod.mk.inj (Option.some.inj (range.symm.trans range'))
    by_cases same : aslrMin = rawStart
    · exact .inl same.symm
    right
    rcases rebaseTo_cases span slot slots' behind same with
      ⟨failed, -⟩ | ⟨failed, -⟩ | ⟨-, entry, fits, entry', -, rest⟩
    · rw [failed] at ranged
      cases ranged
    · rw [failed] at ranged
      cases ranged
    have below : rawStart < aslrMin := by
      by_contra above
      have := rebaseDelta_above (by omega) (by omega) low_start
      have := (fits low low_lt low_loads).1
      omega
    have distance := rebaseDelta_below below
    refine ⟨below, distance ▸ entry, fun i lt loads => distance ▸ (fits i lt loads).2, ?_⟩
    intro counted i lt type memsz
    -- the address of a segment without memory has stayed, and should have moved
    have moves : (phdrAt img.bytes (phdrOffset img.bytes i)).moves empties = true := by
      simp [Phdr.moves, type, counted]
    have stays : (phdrAt img.bytes (phdrOffset img.bytes i)).loads ≠ true := by
      simp [Phdr.loads, memsz]
    have moved := (translated.segment i lt moves).1
    rw [vaddr_kept behind rest stays] at moved
    have same_delta := translated.entry
    rw [entry'] at same_delta
    have width : (phdrAt img.bytes (phdrOffset img.bytes i)).vaddr < 2 ^ 64 := rd64_lt
    have entry_width : (ehdrOf img.bytes).entry < 2 ^ 64 := rd64_lt
    unfold wrap64 at moved same_delta
    omega
  · intro up
    rcases up rawStart rawEnd range with same | ⟨below, entry_fits, paddr_fits, counted⟩
    · have stays : rebaseTo img.bytes rawStart span slot slots' =
          ⟨some (rawStart, wrap64 (alignDownPage aslrMin + span), slot), slots', img.bytes⟩ := by
        unfold rebaseTo
        dsimp only
        rw [if_pos same.symm]
      rw [stays, align, stop]
      refine ⟨rawStart, aslrMin + span, slot, 0, rfl, same, by decide, ⟨?_, ?_, fun _ _ _ => rfl⟩,
        ⟨low, low_lt, low_loads, low_page⟩, ?_⟩
      · exact (Nat.mod_eq_of_lt rd64_lt).symm
      · intro i _ _
        exact ⟨(Nat.mod_eq_of_lt rd64_lt).symm, (Nat.mod_eq_of_lt rd64_lt).symm⟩
      · intro i lt loads
        have inside := bounds i lt loads
        show rawStart ≤ (phdrAt img.bytes (phdrOffset img.bytes i)).vaddr ∧
          (phdrAt img.bytes (phdrOffset img.bytes i)).vaddr +
            (phdrAt img.bytes (phdrOffset img.bytes i)).memsz ≤ aslrMin + span
        exact ⟨inside.1, by omega⟩
    · have distance := rebaseDelta_below below
      have fits : ∀ i < (ehdrOf img.bytes).phnum,
          (phdrAt img.bytes (phdrOffset img.bytes i)).loads = true →
          PhdrFits (rebaseDelta rawStart) img.bytes (phdrOffset img.bytes i) := by
        intro i lt loads
        have inside := bounds i lt loads
        refine ⟨?_, distance ▸ paddr_fits i lt loads⟩
        rw [distance]
        unfold aslrMin aslrMax at *
        omega
      rcases rebaseTo_cases span slot slots' behind below.ne' with
        ⟨-, -, refused⟩ | ⟨-, -, -, i, lt, loads, unfit⟩ | ⟨ranged, entry, -, entry', moved, rest⟩
      · rw [distance] at refused
        omega
      · exact absurd (fits i lt loads) unfit
      rw [stop] at ranged
      have loads_of_moves : ∀ i < (ehdrOf img.bytes).phnum,
          (phdrAt img.bytes (phdrOffset img.bytes i)).moves empties = true →
          (phdrAt img.bytes (phdrOffset img.bytes i)).loads = true := by
        intro i lt moves
        obtain ⟨type, memory⟩ := Bool.and_eq_true_iff.mp moves
        refine Bool.and_eq_true_iff.mpr ⟨type, ?_⟩
        cases counts : empties with
        | false => simpa [counts] using memory
        | true => simpa using counted counts i lt (by simpa using type)
      refine ⟨aslrMin, aslrMin + span, slot, rebaseDelta rawStart, ranged, rfl, rebaseDelta_lt,
        ⟨?_, ?_, ?_⟩, ⟨low, low_lt, low_loads, ?_⟩, ?_⟩
      · rw [entry']
        exact (Nat.mod_eq_of_lt entry).symm
      · intro i lt moves
        have loads := loads_of_moves i lt moves
        rw [(moved i lt loads).1, (moved i lt loads).2]
        exact ⟨(Nat.mod_eq_of_lt (fits i lt loads).1).symm,
          (Nat.mod_eq_of_lt (fits i lt loads).2).symm⟩
      · intro k header apart
        exact rest k header fun i lt loads => apart i lt (loads_moves loads)
      · rw [(moved low low_lt low_loads).1, distance]
        exact alignDownPage_moved low_page below
      · intro i lt loads
        have inside := bounds i lt loads
        rw [(moved i lt loads).1, distance]
        exact ⟨by omega, by omega⟩

/-- On failure the image is as it was exactly if no header was refused late. -/
theorem rebase_left_iff (behind : 64 ≤ (ehdrOf img.bytes).phoff) :
    ((rebaseInPlace img slots).range = none → (rebaseInPlace img slots).bytes = img.bytes) ↔
      ¬ RefusedLate img slots := by
  constructor
  · rintro kept ⟨table, type, rawStart, rawEnd, span, ⟨base, slot, slots'⟩, range, spanned, chosen, ne,
      entry, i, lt, loads, unfit⟩
    rw [rebaseInPlace_eq table type range spanned chosen] at kept
    rcases rebaseTo_cases span slot slots' behind (Ne.symm ne) with
      ⟨-, -, refused⟩ | ⟨failed, entry', -⟩ | ⟨-, -, fits, -⟩
    · omega
    · -- the entry point would not have moved
      rw [kept failed] at entry'
      have nonempty := (extract_spec range).2.2.1
      have end_lt := (extract_spec range).2.2.2.1
      unfold rebaseDelta wrap64 aslrMin at *
      omega
    · exact unfit (fits i lt loads)
  · intro never failed
    unfold rebaseInPlace at failed ⊢
    dsimp only at failed ⊢
    cases table : tableReadable img.bytes img.size with
    | false => simp only [Bool.not_false, ↓reduceIte]
    | true =>
        simp only [table, Bool.not_true, Bool.false_eq_true, ↓reduceIte] at failed ⊢
        cases range : extractElfLoadRangeRaw img.bytes img.size with
        | none => rfl
        | some r =>
            rw [range] at failed
            dsimp only at failed ⊢
            cases spanned : imageSpan r.1 r.2 with
            | none => rfl
            | some span =>
                rw [spanned] at failed
                dsimp only at failed ⊢
                by_cases fixed : (ehdrOf img.bytes).type = 2
                · rw [if_pos fixed]
                  cases reserveUserRangeSlot slots (alignDownPage r.1)
                    (wrap64 (alignDownPage r.1 + span)) <;> rfl
                · rw [if_neg fixed] at failed ⊢
                  cases chosen : chooseDynamicUserBase slots span with
                  | none => rfl
                  | some c =>
                      rw [chosen] at failed
                      obtain ⟨base, slot, slots'⟩ := c
                      dsimp only at failed ⊢
                      by_cases same : aslrMin = r.1
                      · unfold rebaseTo at failed
                        dsimp only at failed
                        rw [if_pos same] at failed
                        cases failed
                      · rcases rebaseTo_cases span slot slots' behind
                          same with ⟨-, kept, -⟩ | ⟨-, -, entry, refused⟩ | ⟨ranged, -⟩
                        · exact kept
                        · exact absurd ⟨table, fixed, r.1, r.2, span, (base, slot, slots'), range,
                            spanned, chosen, Ne.symm same, entry, refused⟩ never
                        · rw [ranged] at failed
                          cases failed

/-- For every image whose table lies behind the ELF header: one that can be relocated is moved as
it should exactly if it moves up, whether or not segments without memory count; and where the
function fails it holds no slot, and has left the image alone exactly if no header was refused
late. -/
theorem rebase_translation_iff (img : Image) (slots : Slots)
    (behind : 64 ≤ (ehdrOf img.bytes).phoff) :
    (Relocatable img slots → ∀ empties, RebaseSucceeds empties img slots ↔ MovesUp empties img) ∧
      ((rebaseInPlace img slots).range = none → (rebaseInPlace img slots).slots = slots) ∧
      (((rebaseInPlace img slots).range = none → (rebaseInPlace img slots).bytes = img.bytes) ↔
        ¬ RefusedLate img slots) := by
  refine ⟨fun ok empties => rebaseSucceeds_iff behind ok empties, ?_, rebase_left_iff behind⟩
  intro failed
  have back := rebase_slots img slots
  rw [rebaseElfImageInplace_eq, failed] at back
  exact back

theorem pieImage_fits : 120 < 2 ^ 64 := by omega

/-- A position-independent image of one segment of a page at `vaddr`, with entry point zero. -/
def pieImage (vaddr : Nat) : Image where
  bytes :=
    let p := wr64 (wr16 (fun _ => 0) 16 3) 32 64
    let p := wr32 (wr16 (wr16 p 54 56) 56 1) 64 1
    wr64 (wr64 p 80 vaddr) 104 4096
  size := 120
  fits := pieImage_fits

theorem pieImage_high : Relocatable (pieImage 0x400000) [none] where
  type := by decide
  table := by decide
  span := ⟨0x400000, 0x401000, 0x1000 + rangeExtraBytes, by decide, by decide, by decide⟩
  slot := List.mem_singleton.mpr rfl

/-- An image linked above the base is refused, and its entry point changed. -/
theorem high_image_refused :
    ¬ ∀ img slots, 64 ≤ (ehdrOf img.bytes).phoff →
      (Relocatable img slots → RebaseSucceeds false img slots) ∧
        ((rebaseInPlace img slots).range = none → (rebaseInPlace img slots).bytes = img.bytes) := by
  intro moved
  have behind : 64 ≤ (ehdrOf (pieImage 0x400000).bytes).phoff := by decide
  have succeeds := (moved _ [none] behind).1 pieImage_high
  rcases (rebaseSucceeds_iff behind pieImage_high false).mp succeeds 0x400000 0x401000 (by decide)
    with at_base | ⟨below, -⟩
  · exact absurd at_base (by decide)
  · exact absurd below (by decide)

/-- An image linked below the base. -/
theorem rebase_translation_low :
    Relocatable (pieImage 0x10000) [none] ∧
      (RebaseSucceeds true (pieImage 0x10000) [none] ↔ MovesUp true (pieImage 0x10000)) := by
  have ok : Relocatable (pieImage 0x10000) [none] :=
    ⟨by decide, by decide, ⟨0x10000, 0x11000, 0x1000 + rangeExtraBytes, by decide, by decide,
      by decide⟩, List.mem_singleton.mpr rfl⟩
  exact ⟨ok, (rebase_translation_iff (pieImage 0x10000) [none] (by decide)).1 ok true⟩

end Exact

end NTux.Elf
