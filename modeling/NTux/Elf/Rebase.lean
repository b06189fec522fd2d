import NTux.Elf.LaunchConserves

/-!
# Moving an image

`rebase_elf_image_inplace` moves an image that is not tied to its addresses to the first base
of the dynamic range.  It adds the distance to one field after the other, in 64 bits, and
refuses where a sum would wrap; what it has changed by then stays changed.

* `rebaseInPlace` — the function with the image it leaves, also where it fails.
* `Translated` — an image moved by a distance.
* `MovesUp` — the image lies below the base, and no field wraps.
* `rebase_translation_iff` — the image is moved as it should exactly then, and left alone on
  failure exactly if no header is refused after the entry point was changed.
-/

namespace NTux.Elf

open NTux.Lib NTux.Lib.Bytes NTux.Mm

/-! ## The function with its image -/

/-- The loop over the headers: whether it came to the end, and the image it leaves. -/
def rebasePhdrsLeft (phoff delta : Nat) : Nat → Nat → Bytes → Bool × Bytes
  | 0, _, p => (true, p)
  | steps + 1, i, p =>
      if (ehdrOf p).phnum ≤ i then (true, p)
      else
        let o := phoff + i * phdrSize
        let ph := phdrAt p o
        if ph.type ≠ ptLoad ∨ ph.memsz = 0 then rebasePhdrsLeft phoff delta steps (i + 1) p
        else if 2 ^ 64 - 1 - delta < ph.vaddr then (false, p)
        else if 2 ^ 64 - 1 - delta < rd64 p (o + 24) then (false, p)
        else
          let p := wr64 p (o + 16) (ph.vaddr + delta)
          rebasePhdrsLeft phoff delta steps (i + 1)
            (wr64 p (o + 24) (wrap64 (rd64 p (o + 24) + delta)))

/-- What `rebase_elf_image_inplace` reports, and the slots and the image it leaves. -/
structure RebaseOutcome where
  range : Option (Nat × Nat × Nat)
  slots : Slots
  bytes : Bytes

/-- The distance to the base, in 64 bits. -/
def rebaseDelta (rawStart : Nat) : Nat := wrap64 (aslrMin + 2 ^ 64 - rawStart)

/-- The end of `rebase_elf_image_inplace`: the base has been reserved. -/
def rebaseTo (p : Bytes) (rawStart span slot : Nat) (slots : Slots) : RebaseOutcome :=
  let stop := wrap64 (alignDownPage aslrMin + span)
  if aslrMin = rawStart then ⟨some (rawStart, stop, slot), slots, p⟩
  else
    let delta := rebaseDelta rawStart
    if 2 ^ 64 - 1 - delta < (ehdrOf p).entry then ⟨none, releaseUserRangeSlot slots slot, p⟩
    else
      let p := wr64 p 24 ((ehdrOf p).entry + delta)
      let r := rebasePhdrsLeft (ehdrOf p).phoff delta 65536 0 p
      if r.1 then ⟨some (alignDownPage aslrMin, stop, slot), slots, r.2⟩
      else ⟨none, releaseUserRangeSlot slots slot, r.2⟩

/-- `rebase_elf_image_inplace`, with the image it leaves. -/
def rebaseInPlace (img : Image) (slots : Slots) : RebaseOutcome :=
  let p := img.bytes
  if !tableReadable p img.size then ⟨none, slots, p⟩
  else
    match extractElfLoadRangeRaw p img.size with
    | none => ⟨none, slots, p⟩
    | some (rawStart, rawEnd) =>
        match imageSpan rawStart rawEnd with
        | none => ⟨none, slots, p⟩
        | some span =>
            if (ehdrOf p).type = 2 then
              let start := alignDownPage rawStart
              match reserveUserRangeSlot slots start (wrap64 (start + span)) with
              | none => ⟨none, slots, p⟩
              | some (slot, slots) => ⟨some (start, wrap64 (start + span), slot), slots, p⟩
            else
              match chooseDynamicUserBase slots span with
              | none => ⟨none, slots, p⟩
              | some (_, slot, slots) => rebaseTo p rawStart span slot slots

theorem rebasePhdrs_eq (phoff delta : Nat) : ∀ (steps i : Nat) (p : Bytes),
    rebasePhdrs phoff delta steps i p =
      if (rebasePhdrsLeft phoff delta steps i p).1 then
        some (rebasePhdrsLeft phoff delta steps i p).2
      else none := by
  intro steps
  induction steps with
  | zero =>
      intro i p
      rfl
  | succ steps ih =>
      intro i p
      unfold rebasePhdrs rebasePhdrsLeft
      dsimp only
      split
      · rfl
      split
      · exact ih _ _
      split
      · rfl
      split
      · rfl
      · exact ih _ _

/-- The base that is chosen is the first one. -/
theorem chooseDynamicUserBase_base {slots slots' : Slots} {span base slot : Nat}
    (eq : chooseDynamicUserBase slots span = some (base, slot, slots')) : base = aslrMin := by
  unfold chooseDynamicUserBase at eq
  dsimp only at eq
  split at eq
  · obtain ⟨⟨i, s⟩, -, same⟩ := Option.map_eq_some_iff.1 eq
    exact (Prod.mk.inj same).1.symm
  · cases eq

/-- The function that keeps the image only where it succeeds is a part of this one. -/
theorem rebaseElfImageInplace_eq (img : Image) (slots : Slots) :
    rebaseElfImageInplace img slots =
      ((rebaseInPlace img slots).range.map fun r =>
        ⟨r.1, r.2.1, r.2.2, (rebaseInPlace img slots).bytes⟩, (rebaseInPlace img slots).slots) := by
  unfold rebaseElfImageInplace rebaseInPlace
  dsimp only
  cases tableReadable img.bytes img.size with
  | false => rfl
  | true =>
      simp only [Bool.not_true, Bool.false_eq_true, ↓reduceIte]
      cases extractElfLoadRangeRaw img.bytes img.size with
      | none => rfl
      | some range =>
          dsimp only
          cases imageSpan range.1 range.2 with
          | none => rfl
          | some span =>
              dsimp only
              by_cases fixed : (ehdrOf img.bytes).type = 2
              · simp only [if_pos fixed]
                cases reserveUserRangeSlot slots (alignDownPage range.1)
                  (wrap64 (alignDownPage range.1 + span)) <;> rfl
              · simp only [if_neg fixed]
                cases chosen : chooseDynamicUserBase slots span with
                | none => rfl
                | some r =>
                    obtain ⟨base, slot, taken⟩ := r
                    obtain rfl := chooseDynamicUserBase_base chosen
                    dsimp only [rebaseTo]
                    by_cases stays : aslrMin = range.1
                    · rw [if_pos stays, if_pos stays]
                      rfl
                    · rw [if_neg stays, if_neg stays]
                      unfold rebaseDelta
                      split
                      · rfl
                      · rw [rebasePhdrs_eq]
                        generalize rebasePhdrsLeft _ _ 65536 0 _ = r
                        obtain ⟨ended, left⟩ := r
                        cases ended <;> rfl

/-! ## Fields of 64 bits -/

section Fields

variable {p q : Bytes} {o v : Nat}

theorem wr64_of_apart {i : Nat} (apart : i < o ∨ o + 8 ≤ i) : wr64 p o v i = p i := by
  unfold wr64
  rw [wr32_of_apart (by omega), wr32_of_apart (by omega)]

theorem rd64_wr64 (fits : v < 2 ^ 64) : rd64 (wr64 p o v) o = v := by
  unfold wr64 rd64
  rw [rd32_wr32_of_apart (.inl (le_refl _)), rd32_wr32 (by omega), rd32_wr32 (by omega)]
  omega

theorem rd64_same (same : ∀ j, o ≤ j → j < o + 8 → p j = q j) : rd64 p o = rd64 q o := by
  unfold rd64
  rw [rd32_congr fun i lt => same (o + i) (by omega) (by omega),
    rd32_congr fun i lt => same (o + 4 + i) (by omega) (by omega)]

/-- The fields of a program header, its physical address apart. -/
theorem phdrAt_same (same : ∀ j, o ≤ j → j < o + 56 → p j = q j) : phdrAt p o = phdrAt q o := by
  unfold phdrAt
  rw [rd32_congr fun i lt => same (o + i) (by omega) (by omega),
    rd64_same fun j ge lt => same j (by omega) (by omega),
    rd64_same (o := o + 16) fun j ge lt => same j (by omega) (by omega),
    rd64_same (o := o + 32) fun j ge lt => same j (by omega) (by omega),
    rd64_same (o := o + 40) fun j ge lt => same j (by omega) (by omega)]

theorem rd16_same (same : ∀ j, o ≤ j → j < o + 2 → p j = q j) : rd16 p o = rd16 q o :=
  rd16_congr fun i lt => same (o + i) (by omega) (by omega)

end Fields

/-- `p_paddr` of the header at `o`. -/
def paddrAt (p : Bytes) (o : Nat) : Nat := rd64 p (o + 24)

/-! ## The loop -/

/-- The offset of a program header. -/
def phdrOffset (p : Bytes) (i : Nat) : Nat := (ehdrOf p).phoff + i * phdrSize

/-- The distance can be added to the addresses of the header. -/
def PhdrFits (delta : Nat) (p : Bytes) (o : Nat) : Prop :=
  (phdrAt p o).vaddr + delta < 2 ^ 64 ∧ paddrAt p o + delta < 2 ^ 64

theorem loads_iff (ph : Phdr) : ph.loads = true ↔ ¬ (ph.type ≠ ptLoad ∨ ph.memsz = 0) := by
  simp [Phdr.loads, not_or]

/-- What the loop does from the `i`-th header on, when the table lies behind the ELF header:
each header that loads is moved, and no other byte is touched. -/
structure LoopMoves (phoff delta n i : Nat) (p p' : Bytes) : Prop where
  moved : ∀ j, i ≤ j → j < n → (phdrAt p (phoff + j * phdrSize)).loads = true →
    rd64 p' (phoff + j * phdrSize + 16) = (phdrAt p (phoff + j * phdrSize)).vaddr + delta ∧
      paddrAt p' (phoff + j * phdrSize) = paddrAt p (phoff + j * phdrSize) + delta
  rest : ∀ k, (∀ j, i ≤ j → j < n → (phdrAt p (phoff + j * phdrSize)).loads = true →
    k < phoff + j * phdrSize + 16 ∨ phoff + j * phdrSize + 32 ≤ k) → p' k = p k

section Loop

variable {phoff delta n steps i : Nat} {p : Bytes}

theorem phdr_apart {j k : Nat} (ne : j ≠ k) :
    phoff + j * phdrSize + 56 ≤ phoff + k * phdrSize ∨
      phoff + k * phdrSize + 56 ≤ phoff + j * phdrSize := by
  unfold phdrSize
  omega

/-- The image after one header has been moved. -/
def movePhdr (delta : Nat) (p : Bytes) (o : Nat) : Bytes :=
  wr64 (wr64 p (o + 16) ((phdrAt p o).vaddr + delta)) (o + 24) (paddrAt p o + delta)

theorem movePhdr_of_apart {o k : Nat} (apart : k < o + 16 ∨ o + 32 ≤ k) :
    movePhdr delta p o k = p k := by
  unfold movePhdr
  rw [wr64_of_apart (by omega), wr64_of_apart (by omega)]

theorem movePhdr_vaddr {o : Nat} (fits : PhdrFits delta p o) :
    rd64 (movePhdr delta p o) (o + 16) = (phdrAt p o).vaddr + delta := by
  unfold movePhdr
  rw [rd64_same (q := wr64 p (o + 16) ((phdrAt p o).vaddr + delta)) fun j ge lt =>
    wr64_of_apart (by omega), rd64_wr64 fits.1]

theorem movePhdr_paddr {o : Nat} (fits : PhdrFits delta p o) :
    paddrAt (movePhdr delta p o) o = paddrAt p o + delta := rd64_wr64 fits.2

/-- Another header is as it was. -/
theorem movePhdr_phdrAt {o k : Nat} (apart : o + 56 ≤ k ∨ k + 56 ≤ o) :
    phdrAt (movePhdr delta p o) k = phdrAt p k ∧ paddrAt (movePhdr delta p o) k = paddrAt p k :=
  ⟨phdrAt_same fun _ _ _ => movePhdr_of_apart (by omega),
    rd64_same fun _ _ _ => movePhdr_of_apart (by omega)⟩

/-- A turn for a header that loads. -/
theorem rebasePhdrsLeft_turn (more : i < (ehdrOf p).phnum)
    (loads : (phdrAt p (phoff + i * phdrSize)).loads = true) (small : delta < 2 ^ 64) :
    rebasePhdrsLeft phoff delta (steps + 1) i p =
      if (phdrAt p (phoff + i * phdrSize)).vaddr + delta < 2 ^ 64 ∧
          paddrAt p (phoff + i * phdrSize) + delta < 2 ^ 64 then
        rebasePhdrsLeft phoff delta steps (i + 1) (movePhdr delta p (phoff + i * phdrSize))
      else (false, p) := by
  rw [rebasePhdrsLeft, if_neg (by omega)]
  dsimp only
  rw [if_neg ((loads_iff _).mp loads)]
  by_cases vaddr : (phdrAt p (phoff + i * phdrSize)).vaddr + delta < 2 ^ 64
  · rw [if_neg (by omega)]
    by_cases paddr : paddrAt p (phoff + i * phdrSize) + delta < 2 ^ 64
    · have read : rd64 (wr64 p (phoff + i * phdrSize + 16)
          ((phdrAt p (phoff + i * phdrSize)).vaddr + delta)) (phoff + i * phdrSize + 24) =
          paddrAt p (phoff + i * phdrSize) := rd64_same fun j ge lt => wr64_of_apart (by omega)
      rw [if_neg (by unfold paddrAt at paddr; omega), if_pos ⟨vaddr, paddr⟩, read]
      unfold movePhdr wrap64
      rw [Nat.mod_eq_of_lt paddr]
    · rw [if_pos (by unfold paddrAt at paddr; omega), if_neg fun both => paddr both.2]
  · rw [if_pos (by omega), if_neg fun both => vaddr both.1]

/-- A header behind the one that is moved is as it was. -/
theorem movePhdr_behind {j : Nat} (ge : i + 1 ≤ j) :
    phdrAt (movePhdr delta p (phoff + i * phdrSize)) (phoff + j * phdrSize) =
        phdrAt p (phoff + j * phdrSize) ∧
      paddrAt (movePhdr delta p (phoff + i * phdrSize)) (phoff + j * phdrSize) =
        paddrAt p (phoff + j * phdrSize) :=
  movePhdr_phdrAt (phdr_apart (by omega))

/-- No header is left. -/
theorem LoopMoves.done (le : n ≤ i) : LoopMoves phoff delta n i p p := by
  constructor
  · intro j ge lt
    omega
  · intro k _
    rfl

/-- A header that loads is moved, then those behind it. -/
theorem LoopMoves.turn {p' : Bytes} (more : i < n)
    (loads : (phdrAt p (phoff + i * phdrSize)).loads = true)
    (fits : PhdrFits delta p (phoff + i * phdrSize))
    (rest : LoopMoves phoff delta n (i + 1) (movePhdr delta p (phoff + i * phdrSize)) p') :
    LoopMoves phoff delta n i p p' := by
  -- the fields of this header are not among those moved later
  have kept : ∀ k, phoff + i * phdrSize + 16 ≤ k → k < phoff + i * phdrSize + 32 →
      p' k = movePhdr delta p (phoff + i * phdrSize) k := by
    intro k ge lt
    refine rest.rest k fun j after _ _ => ?_
    have : phoff + i * phdrSize + 56 ≤ phoff + j * phdrSize ∨
        phoff + j * phdrSize + 56 ≤ phoff + i * phdrSize := phdr_apart (by omega)
    omega
  constructor
  · intro j ge lt loads_j
    rcases Nat.eq_or_lt_of_le ge with rfl | after
    · refine ⟨?_, ?_⟩
      · rw [rd64_same fun k ge lt => kept k ge (by omega), movePhdr_vaddr fits]
      · rw [paddrAt, rd64_same fun k ge lt => kept k (by omega) (by omega)]
        exact movePhdr_paddr fits
    · obtain ⟨header, paddr⟩ := @movePhdr_behind phoff delta i p j after
      have := rest.moved j after lt (by rw [header]; exact loads_j)
      rw [header, paddr] at this
      exact this
  · intro k apart
    rw [rest.rest k fun j after lt loads_j => apart j (by omega) lt (by
      rw [← (movePhdr_behind after).1]; exact loads_j)]
    exact movePhdr_of_apart (apart i (le_refl _) more loads)

/-- A header that does not load is passed. -/
theorem LoopMoves.skip {p' : Bytes} (loads : ¬ (phdrAt p (phoff + i * phdrSize)).loads = true)
    (rest : LoopMoves phoff delta n (i + 1) p p') : LoopMoves phoff delta n i p p' := by
  constructor
  · intro j ge lt loads_j
    rcases Nat.eq_or_lt_of_le ge with rfl | after
    · exact absurd loads_j loads
    · exact rest.moved j after lt loads_j
  · intro k apart
    exact rest.rest k fun j after lt loads_j => apart j (by omega) lt loads_j

/-- The loop comes to the end exactly if no header that loads is refused, and then it has
moved them all.  It never touches what lies before the table. -/
theorem rebasePhdrsLeft_spec (behind : 64 ≤ phoff) (small : delta < 2 ^ 64)
    (count : (ehdrOf p).phnum = n) (enough : n ≤ i + steps) :
    ((rebasePhdrsLeft phoff delta steps i p).1 = true ↔
        ∀ j, i ≤ j → j < n → (phdrAt p (phoff + j * phdrSize)).loads = true →
          PhdrFits delta p (phoff + j * phdrSize)) ∧
      ((rebasePhdrsLeft phoff delta steps i p).1 = true →
        LoopMoves phoff delta n i p (rebasePhdrsLeft phoff delta steps i p).2) ∧
      ∀ k < phoff, (rebasePhdrsLeft phoff delta steps i p).2 k = p k := by
  induction steps generalizing i p with
  | zero =>
      exact ⟨⟨fun _ j ge lt => by omega, fun _ => rfl⟩, fun _ => .done (by omega), fun _ _ => rfl⟩
  | succ steps ih =>
      by_cases done : n ≤ i
      · have stop : rebasePhdrsLeft phoff delta (steps + 1) i p = (true, p) := by
          rw [rebasePhdrsLeft, if_pos (by omega)]
        rw [stop]
        exact ⟨⟨fun _ j ge lt => by omega, fun _ => rfl⟩, fun _ => .done done, fun _ _ => rfl⟩
      · have more : i < (ehdrOf p).phnum := by omega
        by_cases loads : (phdrAt p (phoff + i * phdrSize)).loads = true
        · rw [rebasePhdrsLeft_turn more loads small]
          by_cases fits : (phdrAt p (phoff + i * phdrSize)).vaddr + delta < 2 ^ 64 ∧
              paddrAt p (phoff + i * phdrSize) + delta < 2 ^ 64
          · rw [if_pos fits]
            -- the ELF header is as it was
            have header : ∀ k < phoff, movePhdr delta p (phoff + i * phdrSize) k = p k :=
              fun k lt => movePhdr_of_apart (by omega)
            have count' : (ehdrOf (movePhdr delta p (phoff + i * phdrSize))).phnum = n := by
              rw [← count]
              exact rd16_same fun j _ lt => header j (by omega)
            obtain ⟨ends, moves, before⟩ := ih (i := i + 1) count' (by omega)
            refine ⟨?_, fun ended => .turn (by omega) loads fits (moves ended), ?_⟩
            · rw [ends]
              constructor
              · intro all j ge lt loads_j
                rcases Nat.eq_or_lt_of_le ge with rfl | after
                · exact fits
                · obtain ⟨same, paddr⟩ := @movePhdr_behind phoff delta i p j after
                  have := all j after lt (by rw [same]; exact loads_j)
                  unfold PhdrFits at this
                  rw [same, paddr] at this
                  exact this
              · intro all j ge lt loads_j
                obtain ⟨same, paddr⟩ := @movePhdr_behind phoff delta i p j ge
                rw [same] at loads_j
                have := all j (by omega) lt loads_j
                unfold PhdrFits
                rw [same, paddr]
                exact this
            · intro k lt
              rw [before k lt, header k lt]
          · rw [if_neg fits]
            refine ⟨⟨fun ended => Bool.noConfusion ended, fun all => ?_⟩,
              fun ended => Bool.noConfusion ended, fun _ _ => rfl⟩
            exact absurd (all i (le_refl _) (by omega) loads) fits
        · have skip : rebasePhdrsLeft phoff delta (steps + 1) i p =
              rebasePhdrsLeft phoff delta steps (i + 1) p := by
            rw [rebasePhdrsLeft, if_neg (by omega)]
            dsimp only
            rw [if_pos (by
              by_contra both
              exact loads ((loads_iff _).mpr both))]
          rw [skip]
          obtain ⟨ends, moves, before⟩ := ih (i := i + 1) count (by omega)
          refine ⟨?_, fun ended => (moves ended).skip loads, before⟩
          rw [ends]
          constructor
          · intro all j ge lt loads_j
            rcases Nat.eq_or_lt_of_le ge with rfl | after
            · exact absurd loads_j loads
            · exact all j after lt loads_j
          · intro all j ge lt loads_j
            exact all j (by omega) lt loads_j

end Loop

end NTux.Elf
