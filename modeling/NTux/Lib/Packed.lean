import NTux.Lib.Bytes

/-!
# Packed records

A packed record is a row of fields, each with its width and its bytes.  A field is read back at
the place where the fields before it end (`pack_field`, `rd32_pack`, `rd64_pack`).
-/

namespace NTux.Lib.Packed

open NTux.Lib.Bytes

/-- The bytes of a number, the lowest first. -/
def le (x : Nat) : Bytes := fun i => UInt8.ofNat (x / 256 ^ i)

/-- The bytes of a list, and zeroes behind them. -/
def ofList (bytes : List UInt8) : Bytes := fun i => bytes.getD i 0

/-- The record. -/
def pack : List (Nat × Bytes) → Bytes
  | [] => fun _ => 0
  | (width, bytes) :: rest => fun i => if i < width then bytes i else pack rest (i - width)

/-- Where a field starts. -/
def fieldAt (fields : List (Nat × Bytes)) (k : Nat) : Nat := ((fields.take k).map Prod.fst).sum

variable {fields : List (Nat × Bytes)} {k width i : Nat} {bytes : Bytes}

theorem pack_cons (rest : List (Nat × Bytes)) : pack ((width, bytes) :: rest) i =
    if i < width then bytes i else pack rest (i - width) := rfl

theorem fieldAt_succ (field : Nat × Bytes) :
    fieldAt (field :: fields) (k + 1) = field.1 + fieldAt fields k := by
  simp [fieldAt]

theorem pack_field (field : fields[k]? = some (width, bytes)) (lt : i < width) :
    pack fields (fieldAt fields k + i) = bytes i := by
  induction fields generalizing k with
  | nil => cases field
  | cons first rest ih =>
      obtain ⟨w, b⟩ := first
      cases k with
      | zero =>
          obtain ⟨rfl, rfl⟩ := Prod.mk.inj (Option.some.inj field)
          have start : fieldAt ((w, b) :: rest) 0 = 0 := rfl
          rw [start, Nat.zero_add, pack_cons, if_pos lt]
      | succ k =>
          rw [fieldAt_succ]
          dsimp only
          rw [pack_cons, if_neg (by omega), Nat.add_assoc, Nat.add_sub_cancel_left]
          exact ih field

/-- A record with another value in a field is the same in the other fields. -/
theorem pack_set (width : Nat) (bytes' : Bytes) (field : fields[k]? = some (width, bytes))
    (apart : i < fieldAt fields k ∨ fieldAt fields k + width ≤ i) :
    pack (fields.set k (width, bytes')) i = pack fields i := by
  induction fields generalizing k i with
  | nil => cases field
  | cons first rest ih =>
      obtain ⟨w, b⟩ := first
      cases k with
      | zero =>
          obtain ⟨rfl, rfl⟩ := Prod.mk.inj (Option.some.inj field)
          have start : fieldAt ((w, b) :: rest) 0 = 0 := rfl
          rw [start] at apart
          rw [List.set_cons_zero, pack_cons, pack_cons, if_neg (by omega), if_neg (by omega)]
      | succ k =>
          rw [fieldAt_succ] at apart
          dsimp only at apart
          rw [List.set_cons_succ, pack_cons, pack_cons]
          split
          · rfl
          · exact ih field (by omega)

/-! ## Numbers -/

theorem rd32_le (x : Nat) : rd32 (le x) 0 = x % 4294967296 := by
  unfold rd32 le
  simp only [toNat_ofNat_byte, Nat.zero_add]
  rw [show (256 : Nat) ^ 0 = 1 from rfl, show (256 : Nat) ^ 1 = 256 from rfl,
    show (256 : Nat) ^ 2 = 65536 from rfl, show (256 : Nat) ^ 3 = 16777216 from rfl]
  omega

theorem rd64_le (x : Nat) : rd64 (le x) 0 = x % 2 ^ 64 := by
  have shift : rd32 (le x) (0 + 4) = rd32 (le (x / 4294967296)) 0 := by
    refine rd32_congr fun i _ => ?_
    unfold le
    rw [Nat.div_div_eq_div_mul, show 4294967296 = 256 ^ 4 from rfl, ← Nat.pow_add,
      show 0 + 4 + i = 4 + (0 + i) by omega]
  unfold rd64
  rw [shift, rd32_le, rd32_le]
  omega

theorem rd32_pack (fields : List (Nat × Bytes)) (k : Nat) {x : Nat}
    (field : fields[k]? = some (4, le x)) :
    rd32 (pack fields) (fieldAt fields k) = x % 4294967296 := by
  rw [← rd32_le]
  refine rd32_congr fun i lt => ?_
  rw [pack_field field lt, Nat.zero_add]

theorem rd64_pack (fields : List (Nat × Bytes)) (k : Nat) {x : Nat}
    (field : fields[k]? = some (8, le x)) :
    rd64 (pack fields) (fieldAt fields k) = x % 2 ^ 64 := by
  have low : rd32 (pack fields) (fieldAt fields k) = rd32 (le x) 0 :=
    rd32_congr fun i lt => by rw [pack_field field (by omega), Nat.zero_add]
  have high : rd32 (pack fields) (fieldAt fields k + 4) = rd32 (le x) (0 + 4) :=
    rd32_congr fun i lt => by
      rw [Nat.add_assoc, pack_field field (by omega), Nat.zero_add]
  rw [← rd64_le]
  unfold rd64
  rw [low, high]

theorem slice_pack (fields : List (Nat × Bytes)) (k : Nat) {list : List UInt8}
    (field : fields[k]? = some (list.length, ofList list)) :
    slice (pack fields) (fieldAt fields k) list.length = list :=
  slice_eq_list fun _ lt => pack_field field lt

end NTux.Lib.Packed
