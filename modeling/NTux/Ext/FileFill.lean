import NTux.Ext.FileClear

/-!
# Filling the blocks of a file

`Filled … s a n p inds s'` says what a part of `ext2_inode_write_data` has done: the
blocks `a, …, a + n - 1` of the file have been allocated and filled, `p` finds them, and
`inds` are the blocks of pointers allocated on the way.  Each loop has such a
specification, or fails because no block is free (`FillsTo`).
-/

namespace NTux.Ext

open NTux.Lib NTux.Lib.Bytes

variable {fs : ExtFs} {d d' : Volume} {reader : Reader} {data : Bytes} {len : Nat}

/-- The reader hands out the `len` bytes of `data`. -/
def Supplies (reader : Reader) (data : Bytes) (len : Nat) : Prop :=
  ∀ off n buf, reader off n = some buf → off + n ≤ len → ∀ i, i < n → buf i = data (off + i)

theorem bufferReader_supplies (data : Bytes) (len : Nat) :
    Supplies (bufferReader data) data len := by
  rintro off n buf ⟨⟩ _ i _
  rfl

/-- The block `b` holds the part `f` of the file. -/
def Holds (fs : ExtFs) (data : Bytes) (len : Nat) (d : Volume) (f b : Nat) : Prop :=
  ∀ k, k < fs.blockSize → f * fs.blockSize + k < len → d b k = data (f * fs.blockSize + k)

theorem Holds.congr {f b : Nat} (holds : Holds fs data len d f b) (same : d' b = d b) :
    Holds fs data len d' f b := by
  unfold Holds
  rw [same]
  exact holds

theorem Grown.perm {new new' : List Nat} (grown : Grown fs d new d') (perm : new.Perm new') :
    Grown fs d new' d' where
  consistent := grown.consistent
  fresh x mem := grown.fresh x (perm.mem_iff.2 mem)
  nodup := perm.nodup_iff.1 grown.nodup
  used y has := by rw [grown.used y has, perm.mem_iff]
  inodes := grown.inodes
  frame y off notNew := grown.frame y off fun mem => notNew (perm.mem_iff.1 mem)
  places := grown.places

/-- The blocks of the file from `a` on have been filled. -/
structure Filled (fs : ExtFs) (data : Bytes) (len : Nat) (s : Filling) (a n : Nat)
    (p : Nat → Nat) (inds : List Nat) (s' : Filling) : Prop where
  grown : Grown fs s.vol ((List.range' a n).map p ++ inds) s'.vol
  holds : ∀ f, a ≤ f → f < a + n → Holds fs data len s'.vol f (p f)
  off : s'.off = min len ((a + n) * fs.blockSize)
  total : s'.total = s.total + n + inds.length

/-- No block can be allocated, or the reader fails. -/
def Stuck (fs : ExtFs) (reader : Reader) (d : Volume) : Prop :=
  extAllocBlock fs d = none ∨ ∃ off n, reader off n = none

/-- The step gets to what `post` describes, or is stuck after some allocations. -/
def FillsTo {α : Type} (fs : ExtFs) (reader : Reader) (d : Volume) (post : α → Prop) :
    Except Volume α → Prop
  | .ok a => post a
  | .error d' => ∃ part, Grown fs d part d' ∧ Stuck fs reader d'

section Steps

variable {α β : Type} {post : α → Prop} {post' : β → Prop}

theorem FillsTo.bind {r : Except Volume α} {f : α → Except Volume β}
    (first : FillsTo fs reader d post r) (next : ∀ a, post a → FillsTo fs reader d post' (f a)) :
    FillsTo fs reader d post' (r >>= f) := by
  cases r with
  | error d' => exact first
  | ok a => exact next a first

/-- What was allocated before the step counts as well. -/
theorem FillsTo.after {r : Except Volume α} {new : List Nat} (grown : Grown fs d new d')
    (step : FillsTo fs reader d' post r) : FillsTo fs reader d post r := by
  cases r with
  | error d'' =>
      obtain ⟨part, grown', stuck⟩ := step
      exact ⟨_, grown.trans grown', stuck⟩
  | ok a => exact step

theorem FillsTo.imp {r : Except Volume α} {post' : α → Prop} (first : FillsTo fs reader d post r)
    (weaker : ∀ a, post a → post' a) : FillsTo fs reader d post' r := by
  cases r with
  | error d' => exact first
  | ok a => exact weaker a first

theorem fillsTo_allocBlock (ok : Consistent fs d) :
    FillsTo fs reader d (fun r => Grown fs d [r.1] r.2) (orFail d (extAllocBlock fs d)) := by
  cases eq : extAllocBlock fs d with
  | none => exact ⟨[], .refl ok, .inl eq⟩
  | some r => exact .alloc (extAllocBlock_ok ok eq)

theorem fillsTo_reader {off : Nat} (ok : Consistent fs d) :
    FillsTo fs reader d (fun chunk => extFillBlock fs reader len off = some chunk)
      (orFail d (extFillBlock fs reader len off)) := by
  cases eq : extFillBlock fs reader len off with
  | some chunk => exact rfl
  | none =>
      refine ⟨[], .refl ok, .inr ?_⟩
      unfold extFillBlock at eq
      dsimp only at eq
      split at eq
      · exact absurd eq (by simp)
      · exact ⟨off, _, Option.map_eq_none_iff.1 eq⟩

end Steps

/-! ## One block -/

/-- The bytes of a block come from the reader. -/
theorem extFillBlock_holds (supplies : Supplies reader data len) {f : Nat} {chunk : Bytes}
    (eq : extFillBlock fs reader len (min len (f * fs.blockSize)) = some chunk) {k : Nat}
    (lt : k < fs.blockSize) (inside : f * fs.blockSize + k < len) :
    chunk k = data (f * fs.blockSize + k) := by
  unfold extFillBlock at eq
  dsimp only at eq
  have start : min len (f * fs.blockSize) = f * fs.blockSize := Nat.min_eq_right (by omega)
  rw [start, if_neg (by omega)] at eq
  obtain ⟨buf, read, rfl⟩ := Option.map_eq_some_iff.1 eq
  show (if _ then _ else _) = _
  rw [if_pos (by omega)]
  exact supplies _ _ buf read (by omega) k (by omega)

theorem off_succ (len f size : Nat) :
    min len (f * size) + min (len - min len (f * size)) size = min len ((f + 1) * size) := by
  rw [Nat.succ_mul]
  omega

namespace Filled

variable {s s' s'' : Filling} {a n m : Nat} {p q r : Nat → Nat} {inds inds' : List Nat}

theorem refl (ok : Consistent fs s.vol) (off : s.off = min len (a * fs.blockSize)) :
    Filled fs data len s a 0 p [] s where
  grown := .refl ok
  holds f le lt := by omega
  off := off
  total := rfl

theorem congr (filled : Filled fs data len s a n p inds s')
    (same : ∀ f, a ≤ f → f < a + n → q f = p f) : Filled fs data len s a n q inds s' where
  grown := by
    have eq : (List.range' a n).map q = (List.range' a n).map p :=
      List.map_congr_left fun f mem => by
        obtain ⟨le, lt⟩ := List.mem_range'_1.1 mem
        exact same f le lt
    rw [eq]
    exact filled.grown
  holds f le lt := by
    rw [same f le lt]
    exact filled.holds f le lt
  off := filled.off
  total := filled.total

/-- A block of the file that was filled is new. -/
theorem mem_new {f : Nat} (le : a ≤ f) (lt : f < a + n) :
    p f ∈ (List.range' a n).map p ++ inds :=
  List.mem_append_left _ (List.mem_map.2 ⟨f, List.mem_range'_1.2 ⟨le, lt⟩, rfl⟩)

/-- Two parts, one after the other. -/
theorem append (ok : Consistent fs s.vol) (filled : Filled fs data len s a n p inds s')
    (filled' : Filled fs data len s' (a + n) m q inds' s'')
    (first : ∀ f, a ≤ f → f < a + n → r f = p f)
    (second : ∀ f, a + n ≤ f → f < a + n + m → r f = q f) :
    Filled fs data len s a (n + m) r (inds ++ inds') s'' where
  grown := by
    refine ((filled.congr first).grown.trans (filled'.congr second).grown).perm ?_
    have split : (List.range' a (n + m)).map r =
        (List.range' a n).map r ++ (List.range' (a + n) m).map r := by
      rw [← List.map_append, ← List.range'_append_1]
    rw [split, List.append_assoc, List.append_assoc]
    refine List.Perm.append_left _ ?_
    rw [← List.append_assoc, ← List.append_assoc]
    exact List.Perm.append_right _ List.perm_append_comm
  holds f le lt := by
    rcases Nat.lt_or_ge f (a + n) with before | after
    · rw [first f le before]
      exact (filled.holds f le before).congr (filled.grown.keeps ok filled'.grown
        (mem_new le before))
    · rw [second f after (by omega)]
      exact filled'.holds f after (by omega)
  off := by
    rw [filled'.off, Nat.add_assoc]
  total := by
    rw [filled'.total, filled.total, List.length_append]
    omega

end Filled

/-! ## The loops -/

/-- The loop over the places of a buffer fills the blocks of the file from `start + j` on. -/
theorem extFillBlocks_fills (supplies : Supplies reader data len) (start base n j : Nat)
    (s : Filling) (buf : Bytes) (ok : Consistent fs s.vol)
    (off : s.off = min len ((start + j) * fs.blockSize)) :
    FillsTo fs reader s.vol (fun r : Filling × Bytes =>
        Filled fs data len s (start + j) n (fun f => rd32 r.2 (base + 4 * (f - start))) [] r.1 ∧
          ∀ k, k < base + 4 * j ∨ base + 4 * (j + n) ≤ k → r.2 k = buf k)
      (extFillBlocks fs reader len base n j s buf) := by
  induction n generalizing j s buf with
  | zero => exact ⟨.refl ok off, fun k _ => rfl⟩
  | succ n ih =>
      unfold extFillBlocks
      refine (fillsTo_allocBlock ok).bind ?_
      rintro ⟨b, d⟩ grown
      refine ((fillsTo_reader grown.consistent).after grown).bind fun chunk eq => ?_
      rw [off] at eq
      have written := grown.write ok (List.mem_singleton.2 rfl) chunk
      have next := ih (j + 1) ⟨extWriteBlock d b chunk,
        s.off + min (len - s.off) fs.blockSize, s.total + 1⟩
        (wr32 buf (base + 4 * j) b) written.consistent (by
          show s.off + _ = _
          rw [off]
          exact off_succ len (start + j) fs.blockSize)
      refine (next.after written).imp ?_
      rintro ⟨s', buf'⟩ ⟨filled, kept⟩
      have ltB : b < 4294967296 := grown.lt_word ok (List.mem_singleton.2 rfl)
      -- the number of the block stays where it was stored
      have stored : rd32 buf' (base + 4 * j) = b := by
        rw [← rd32_wr32 (p := buf) (o := base + 4 * j) ltB]
        exact rd32_congr fun i lt => kept _ (by omega)
      have here : Filled fs data len s (start + j) 1
          (fun f => rd32 buf' (base + 4 * (f - start))) []
          ⟨extWriteBlock d b chunk, s.off + min (len - s.off) fs.blockSize, s.total + 1⟩ := by
        have ptr : rd32 buf' (base + 4 * (start + j - start)) = b := by
          rw [Nat.add_sub_cancel_left, stored]
        refine ⟨?_, fun f le lt => ?_, ?_, rfl⟩
        · show Grown fs s.vol [rd32 buf' (base + 4 * (start + j - start))] _
          rw [ptr]
          exact written
        · obtain rfl : f = start + j := by omega
          intro k ltK inside
          show extWriteBlock d b chunk (rd32 buf' _) k = _
          rw [ptr, extWriteBlock, Function.update_self]
          exact extFillBlock_holds supplies eq ltK inside
        · show s.off + _ = _
          rw [off]
          exact off_succ len (start + j) fs.blockSize
      refine ⟨?_, fun k apart => ?_⟩
      · rw [Nat.add_comm n 1]
        exact here.append ok filled (fun _ _ _ => rfl) fun _ _ _ => rfl
      · rw [kept k (by omega)]
        exact wr32_of_apart (by omega)

/-- A block of pointers is filled, and the places behind the last pointer are zero. -/
theorem extFillIndirect_fills (supplies : Supplies reader data len) {a n : Nat} {s : Filling}
    (ok : Consistent fs s.vol) (off : s.off = min len (a * fs.blockSize)) :
    FillsTo fs reader s.vol (fun r : Nat × Filling =>
        Filled fs data len s a n (fun f => blockPtr (r.2.vol r.1) (f - a)) [r.1] r.2 ∧
          ∀ i, n ≤ i → blockPtr (r.2.vol r.1) i = 0)
      (extFillIndirect fs reader len n s) := by
  unfold extFillIndirect
  refine (fillsTo_allocBlock ok).bind ?_
  rintro ⟨b, d⟩ grown
  have inner := extFillBlocks_fills supplies a 0 n 0 ⟨d, s.off, s.total + 1⟩ (fun _ => 0)
    grown.consistent off
  refine (inner.after grown).bind ?_
  rintro ⟨s', buf⟩ ⟨filled, kept⟩
  have all := grown.trans filled.grown
  have memB : b ∈ [b] ++ ((List.range' (a + 0) n).map
      (fun f => rd32 buf (0 + 4 * (f - a))) ++ []) := by simp
  have apart : b ∉ (List.range' (a + 0) n).map (fun f => rd32 buf (0 + 4 * (f - a))) ++ [] :=
    (List.nodup_cons.1 all.nodup).1
  have written := all.write ok memB buf
  -- the block read back is the buffer written to it
  have self : extWriteBlock s'.vol b buf b = buf := Function.update_self ..
  show Filled fs data len s a n _ [b] ⟨extWriteBlock s'.vol b buf, s'.off, s'.total⟩ ∧ _
  refine ⟨⟨?_, fun f le lt => ?_, ?_, ?_⟩, fun i le => ?_⟩
  · refine written.perm ?_
    rw [List.append_nil]
    have same : (List.range' (a + 0) n).map (fun f => rd32 buf (0 + 4 * (f - a))) =
        (List.range' a n).map fun f => blockPtr (extWriteBlock s'.vol b buf b) (f - a) := by
      refine List.map_congr_left fun f _ => ?_
      rw [self, Nat.zero_add]
      rfl
    rw [same]
    exact List.perm_append_comm
  · have holds := filled.holds f le lt
    dsimp only at holds ⊢
    rw [Nat.zero_add] at holds
    rw [self]
    refine Holds.congr holds (Function.update_of_ne (fun eq => apart ?_) _ _)
    rw [← eq]
    refine List.mem_append_left _ (List.mem_map.2 ⟨f, List.mem_range'_1.2 ⟨le, lt⟩, ?_⟩)
    rw [Nat.zero_add]
    rfl
  · exact filled.off
  · show s'.total = _
    rw [filled.total]
    show s.total + 1 + n + 0 = s.total + n + 1
    omega
  · show rd32 (extWriteBlock s'.vol b buf b) (4 * i) = 0
    rw [self, ← show rd32 (fun _ => 0) (4 * i) = 0 from rfl]
    exact rd32_congr fun m _ => kept _ (by omega)

theorem row_place {P t : Nat} (idx : Nat) (lt : t < P) :
    (idx * P + t) / P = idx ∧ (idx * P + t) % P = t := by
  constructor
  · rw [Nat.add_comm, Nat.add_mul_div_right _ _ (by omega), Nat.div_eq_of_lt lt, Nat.zero_add]
  · rw [Nat.add_comm, Nat.add_mul_mod_self_right, Nat.mod_eq_of_lt lt]

/-- The pointer to the part `f` of a file in the rows of a double indirect block whose first
row starts at `start`. -/
def rowPtr (fs : ExtFs) (d : Volume) (ind2 : Bytes) (start f : Nat) : Nat :=
  blockPtr (d (blockPtr ind2 ((f - start) / fs.ptrs))) ((f - start) % fs.ptrs)

/-- The rows `idx, …, idx + m - 1` of a double indirect block have been filled with
`remaining` pointers, the last of them perhaps in part. -/
structure FilledRows (fs : ExtFs) (data : Bytes) (len start idx remaining m : Nat) (s : Filling)
    (ind2 : Bytes) (s' : Filling) (ind2' : Bytes) : Prop where
  filled : Filled fs data len s (start + idx * fs.ptrs) remaining
    (rowPtr fs s'.vol ind2' start) ((List.range' idx m).map (blockPtr ind2')) s'
  kept : ∀ k, k < 4 * idx ∨ 4 * (idx + m) ≤ k → ind2' k = ind2 k
  enough : remaining ≤ m * fs.ptrs
  notMore : m = 0 ∨ (m - 1) * fs.ptrs < remaining
  tail : ∀ i, idx ≤ i → i < idx + m → ∀ t, idx * fs.ptrs + remaining ≤ i * fs.ptrs + t →
    t < fs.ptrs → blockPtr (s'.vol (blockPtr ind2' i)) t = 0

theorem extFillDouble_zero {fuel idx : Nat} {s : Filling} {ind2 : Bytes} :
    extFillDouble fs reader len fuel idx 0 s ind2 = .ok (s, ind2) := by
  cases fuel <;> rfl

/-- One row, the first of the rows that are left. -/
theorem filledRow {start idx take b : Nat} {s s' s'' : Filling} {ind2' : Bytes} (le : take ≤ fs.ptrs)
    (row : Filled fs data len s (start + idx * fs.ptrs) take
      (fun f => blockPtr (s'.vol b) (f - (start + idx * fs.ptrs))) [b] s')
    (stored : blockPtr ind2' idx = b) (same : s''.vol b = s'.vol b) :
    Filled fs data len s (start + idx * fs.ptrs) take (rowPtr fs s''.vol ind2' start)
      ((List.range' idx 1).map (blockPtr ind2')) s' := by
  have inds : (List.range' idx 1).map (blockPtr ind2') = [b] := by
    rw [← stored]
    rfl
  rw [inds]
  refine row.congr fun f leF ltF => ?_
  obtain ⟨t, rfl⟩ : ∃ t, f = start + idx * fs.ptrs + t := ⟨_, (Nat.add_sub_cancel' leF).symm⟩
  obtain ⟨div, mod⟩ := row_place idx (show t < fs.ptrs by omega)
  unfold rowPtr
  rw [show start + idx * fs.ptrs + t - start = idx * fs.ptrs + t by omega, div, mod, stored, same,
    Nat.add_sub_cancel_left]

/-- The loop over the rows. -/
theorem extFillDouble_fills (supplies : Supplies reader data len) (pos : 0 < fs.ptrs)
    (start fuel idx remaining : Nat) (s : Filling) (ind2 : Bytes)
    (ok : Consistent fs s.vol) (fuelled : remaining ≤ fuel)
    (off : s.off = min len ((start + idx * fs.ptrs) * fs.blockSize)) :
    FillsTo fs reader s.vol (fun r : Filling × Bytes =>
        ∃ m, FilledRows fs data len start idx remaining m s ind2 r.1 r.2)
      (extFillDouble fs reader len fuel idx remaining s ind2) := by
  induction fuel generalizing idx remaining s ind2 with
  | zero =>
      obtain rfl : remaining = 0 := by omega
      exact ⟨0, .refl ok off, fun k _ => rfl, Nat.zero_le _, .inl rfl, fun i le lt => by omega⟩
  | succ fuel ih =>
      unfold extFillDouble
      split
      next zero =>
        subst zero
        exact ⟨0, .refl ok off, fun k _ => rfl, Nat.zero_le _, .inl rfl, fun i le lt => by omega⟩
      next some =>
        have row := extFillIndirect_fills supplies (a := start + idx * fs.ptrs)
          (n := min remaining fs.ptrs) ok off
        refine row.bind ?_
        rintro ⟨b, s₁⟩ ⟨filled, zeros⟩
        dsimp only at filled zeros ⊢
        have ltB : b < 4294967296 := filled.grown.lt_word ok (by simp)
        have memB : b ∈ (List.range' (start + idx * fs.ptrs) (min remaining fs.ptrs)).map
            (fun f => blockPtr (s₁.vol b) (f - (start + idx * fs.ptrs))) ++ [b] := by simp
        rcases Nat.lt_or_ge fs.ptrs remaining with more | last
        · rw [Nat.min_eq_right (Nat.le_of_lt more)] at filled zeros ⊢
          have next := ih (idx + 1) (remaining - fs.ptrs) s₁ (wr32 ind2 (4 * idx) b)
            filled.grown.consistent (by omega) (by
              rw [filled.off, Nat.succ_mul, Nat.add_assoc])
          refine (next.after filled.grown).imp ?_
          rintro ⟨s₂, ind2'⟩ ⟨m, rows⟩
          have stored : blockPtr ind2' idx = b := by
            have here : blockPtr (wr32 ind2 (4 * idx) b) idx = b := rd32_wr32 ltB
            rw [← here]
            exact rd32_congr fun i lt => rows.kept _ (by omega)
          have same : s₂.vol b = s₁.vol b := by
            rw [Nat.min_eq_right (Nat.le_of_lt more)] at memB
            exact filled.grown.keeps ok rows.filled.grown memB
          have head := filledRow (Nat.le_refl _) filled stored same
          have rest := rows.filled
          rw [Nat.succ_mul, ← Nat.add_assoc] at rest
          refine ⟨m + 1, ?_, fun k apart => ?_, ?_, .inr ?_, fun i le lt t out ltT => ?_⟩
          · have both := head.append ok rest (fun _ _ _ => rfl) fun _ _ _ => rfl
            rw [← List.map_append, List.range'_append_1, Nat.add_comm 1 m] at both
            rwa [show fs.ptrs + (remaining - fs.ptrs) = remaining by omega] at both
          · rw [rows.kept k (by omega)]
            exact wr32_of_apart (by omega)
          · have enough := rows.enough
            rw [Nat.succ_mul]
            omega
          · rcases rows.notMore with rfl | few
            · rw [Nat.zero_add, Nat.sub_self, Nat.zero_mul]
              omega
            · rcases Nat.eq_zero_or_pos m with rfl | posM
              · rw [Nat.zero_add, Nat.sub_self, Nat.zero_mul]
                omega
              · have split : (m + 1 - 1) * fs.ptrs = (m - 1) * fs.ptrs + fs.ptrs := by
                  rw [← Nat.succ_mul]
                  congr 1
                  omega
                rw [split]
                omega
          · rcases Nat.eq_or_lt_of_le le with rfl | after
            · -- the first row is full
              omega
            · refine rows.tail i after (by omega) t ?_ ltT
              rw [Nat.succ_mul]
              omega
        · -- the last row
          rw [Nat.min_eq_left last] at filled zeros ⊢
          rw [Nat.sub_self, extFillDouble_zero]
          have stored : blockPtr (wr32 ind2 (4 * idx) b) idx = b := rd32_wr32 ltB
          refine ⟨1, filledRow last filled stored rfl, fun k apart => ?_, by omega,
            .inr (by omega), fun i le lt t out _ => ?_⟩
          · exact wr32_of_apart (by omega)
          · obtain rfl : i = idx := by omega
            show blockPtr (s₁.vol (blockPtr (wr32 ind2 (4 * i) b) i)) t = 0
            rw [stored]
            exact zeros t (by omega)

end NTux.Ext
