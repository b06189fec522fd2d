import Mathlib.Data.Nat.Bitwise
import Mathlib.Logic.Function.Basic

/-!
# Byte buffers

A buffer is a function from offsets to bytes.  `rd16`, `rd32`, `rd64`, `wr16` and `wr32`
are the little-endian accesses, `splice` copies a range of one buffer into another, and
`getBit`, `setBit` and `clearBit` treat a buffer as a bitmap, least significant bit
first.

A read sees only the bytes it covers (`rd16_congr`, `rd32_congr`), and a write changes
only those (`wr16_of_apart`, `wr32_of_apart`, `splice_of_apart`), so accesses to apart
places do not see each other.
-/

namespace NTux.Lib

/-- The contents of a buffer. -/
abbrev Bytes := Nat → UInt8

namespace Bytes

variable {p q : Bytes} {o o' v b b' : Nat}

/-- The `n` bytes from `o` on. -/
def slice (p : Bytes) (o n : Nat) : List UInt8 := (List.range n).map fun i => p (o + i)

/-- The 16-bit number at `o`. -/
def rd16 (p : Bytes) (o : Nat) : Nat := (p o).toNat + 256 * (p (o + 1)).toNat

/-- The 32-bit number at `o`. -/
def rd32 (p : Bytes) (o : Nat) : Nat :=
  (p o).toNat + 256 * (p (o + 1)).toNat + 65536 * (p (o + 2)).toNat +
    16777216 * (p (o + 3)).toNat

/-- The 64-bit number at `o`. -/
def rd64 (p : Bytes) (o : Nat) : Nat := rd32 p o + 2 ^ 32 * rd32 p (o + 4)

/-- Store a 16-bit number at `o`. -/
def wr16 (p : Bytes) (o v : Nat) : Bytes := fun i =>
  if i = o then UInt8.ofNat v else if i = o + 1 then UInt8.ofNat (v / 256) else p i

/-- Store a 32-bit number at `o`. -/
def wr32 (p : Bytes) (o v : Nat) : Bytes := fun i =>
  if i = o then UInt8.ofNat v else if i = o + 1 then UInt8.ofNat (v / 256)
  else if i = o + 2 then UInt8.ofNat (v / 65536)
  else if i = o + 3 then UInt8.ofNat (v / 16777216) else p i

/-- Copy `n` bytes of `q` to `p`, from `o` on. -/
def splice (p : Bytes) (o n : Nat) (q : Bytes) : Bytes := fun i =>
  if o ≤ i ∧ i < o + n then q (i - o) else p i

/-! ## Slices -/

theorem slice_length {n : Nat} : (slice p o n).length = n := by simp [slice]

theorem slice_congr {n : Nat} (same : ∀ i, i < n → p (o + i) = q (o' + i)) :
    slice p o n = slice q o' n :=
  List.map_congr_left fun i mem => same i (List.mem_range.1 mem)

/-- The slice that holds a list. -/
theorem slice_eq_list {s : List UInt8} (same : ∀ i, i < s.length → p (o + i) = s.getD i 0) :
    slice p o s.length = s := by
  refine List.ext_getElem slice_length fun i lt lt' => ?_
  simp only [slice, List.getElem_map, List.getElem_range, same i lt', List.getD_eq_getElem?_getD,
    List.getElem?_eq_getElem lt', Option.getD_some]

theorem slice_add (m n : Nat) : slice p o (m + n) = slice p o m ++ slice p (o + m) n := by
  unfold slice
  rw [List.range_add, List.map_append, List.map_map]
  congr 1
  exact List.map_congr_left fun i _ => by rw [Function.comp_apply, Nat.add_assoc]

theorem slice_succ (n : Nat) : slice p o (n + 1) = p o :: slice p (o + 1) n := by
  rw [Nat.add_comm n 1, slice_add]
  rfl

theorem slice_append_end (n : Nat) : slice p o n ++ [p (o + n)] = slice p o (n + 1) := by
  rw [slice_add]
  simp [slice]

theorem slice_take {m n : Nat} (le : m ≤ n) : (slice p o n).take m = slice p o m := by
  obtain ⟨k, rfl⟩ := Nat.exists_eq_add_of_le le
  rw [slice_add, List.take_left' slice_length]

theorem slice_drop (m n : Nat) : (slice p o n).drop m = slice p (o + m) (n - m) := by
  rcases Nat.le_total m n with le | ge
  · obtain ⟨k, rfl⟩ := Nat.exists_eq_add_of_le le
    rw [slice_add, List.drop_left' slice_length, Nat.add_sub_cancel_left]
  · rw [List.drop_eq_nil_of_le (by rw [slice_length]; exact ge), Nat.sub_eq_zero_of_le ge]
    rfl

/-! ## Numbers -/

theorem rd16_lt : rd16 p o < 65536 := by
  have low := (p o).toNat_lt
  have high := (p (o + 1)).toNat_lt
  unfold rd16
  omega

theorem rd32_lt : rd32 p o < 4294967296 := by
  have b0 := (p o).toNat_lt
  have b1 := (p (o + 1)).toNat_lt
  have b2 := (p (o + 2)).toNat_lt
  have b3 := (p (o + 3)).toNat_lt
  unfold rd32
  omega

theorem rd64_lt : rd64 p o < 2 ^ 64 := by
  have low : rd32 p o < 4294967296 := rd32_lt
  have high : rd32 p (o + 4) < 4294967296 := rd32_lt
  unfold rd64
  omega

theorem rd16_congr (same : ∀ i, i < 2 → p (o + i) = q (o' + i)) : rd16 p o = rd16 q o' := by
  unfold rd16
  rw [same 1 (by omega), show p o = q o' from same 0 (by omega)]

theorem rd32_congr (same : ∀ i, i < 4 → p (o + i) = q (o' + i)) : rd32 p o = rd32 q o' := by
  unfold rd32
  rw [same 1 (by omega), same 2 (by omega), same 3 (by omega),
    show p o = q o' from same 0 (by omega)]

theorem toNat_ofNat_byte (v : Nat) : (UInt8.ofNat v).toNat = v % 256 := UInt8.toNat_ofNat'

theorem rd16_wr16 (lt : v < 65536) : rd16 (wr16 p o v) o = v := by
  have ne : o + 1 ≠ o := by omega
  simp only [rd16, wr16, if_true, if_neg ne, toNat_ofNat_byte]
  omega

theorem rd32_wr32_mod : rd32 (wr32 p o v) o = v % 4294967296 := by
  have ne1 : o + 1 ≠ o := by omega
  have ne2 : o + 2 ≠ o := by omega
  have ne3 : o + 3 ≠ o := by omega
  have ne21 : o + 2 ≠ o + 1 := by omega
  have ne31 : o + 3 ≠ o + 1 := by omega
  have ne32 : o + 3 ≠ o + 2 := by omega
  simp only [rd32, wr32, if_true, if_neg ne1, if_neg ne2, if_neg ne3, if_neg ne21, if_neg ne31,
    if_neg ne32, toNat_ofNat_byte]
  omega

theorem rd32_wr32 (lt : v < 4294967296) : rd32 (wr32 p o v) o = v := by
  rw [rd32_wr32_mod, Nat.mod_eq_of_lt lt]

theorem wr16_of_apart {i : Nat} (apart : i < o ∨ o + 2 ≤ i) : wr16 p o v i = p i := by
  unfold wr16
  rw [if_neg (by omega), if_neg (by omega)]

theorem wr32_of_apart {i : Nat} (apart : i < o ∨ o + 4 ≤ i) : wr32 p o v i = p i := by
  unfold wr32
  rw [if_neg (by omega), if_neg (by omega), if_neg (by omega), if_neg (by omega)]

/-- A store in a buffer that is part of a larger one. -/
theorem wr16_shift {k j : Nat} (same : q (k + j) = p j) :
    wr16 q (k + o) v (k + j) = wr16 p o v j := by
  unfold wr16
  simp only [Nat.add_assoc, Nat.add_left_cancel_iff, same]

theorem wr32_shift {k j : Nat} (same : q (k + j) = p j) :
    wr32 q (k + o) v (k + j) = wr32 p o v j := by
  unfold wr32
  simp only [Nat.add_assoc, Nat.add_left_cancel_iff, same]

theorem rd16_wr16_of_apart (apart : o' + 2 ≤ o ∨ o + 2 ≤ o') :
    rd16 (wr16 p o v) o' = rd16 p o' :=
  rd16_congr fun i lt => wr16_of_apart (by omega)

theorem rd16_wr32_of_apart (apart : o' + 2 ≤ o ∨ o + 4 ≤ o') :
    rd16 (wr32 p o v) o' = rd16 p o' :=
  rd16_congr fun i lt => wr32_of_apart (by omega)

theorem rd32_wr16_of_apart (apart : o' + 4 ≤ o ∨ o + 2 ≤ o') :
    rd32 (wr16 p o v) o' = rd32 p o' :=
  rd32_congr fun i lt => wr16_of_apart (by omega)

theorem rd32_wr32_of_apart (apart : o' + 4 ≤ o ∨ o + 4 ≤ o') :
    rd32 (wr32 p o v) o' = rd32 p o' :=
  rd32_congr fun i lt => wr32_of_apart (by omega)

/-- A number of 32 bits as two of 16. -/
theorem rd32_eq : rd32 p o = rd16 p o + 65536 * rd16 p (o + 2) := by
  unfold rd32 rd16
  rw [show o + 2 + 1 = o + 3 from rfl]
  omega

/-! ## Copies -/

theorem splice_of_apart {n i : Nat} (apart : i < o ∨ o + n ≤ i) : splice p o n q i = p i :=
  if_neg (by omega)

theorem splice_of_mem {n i : Nat} (lt : i < n) : splice p o n q (o + i) = q i := by
  unfold splice
  rw [if_pos (by omega), Nat.add_sub_cancel_left]

theorem rd32_splice {n : Nat} (inside : o' + 4 ≤ n) : rd32 (splice p o n q) (o + o') = rd32 q o' :=
  rd32_congr fun i lt => by
    rw [Nat.add_assoc]
    exact splice_of_mem (by omega)

theorem rd16_splice_of_apart {n : Nat} (apart : o' + 2 ≤ o ∨ o + n ≤ o') :
    rd16 (splice p o n q) o' = rd16 p o' :=
  rd16_congr fun i lt => splice_of_apart (by omega)

theorem rd32_splice_of_apart {n : Nat} (apart : o' + 4 ≤ o ∨ o + n ≤ o') :
    rd32 (splice p o n q) o' = rd32 p o' :=
  rd32_congr fun i lt => splice_of_apart (by omega)

/-! ## Bits -/

/-- The bit `b`. -/
def getBit (p : Bytes) (b : Nat) : Bool := (p (b / 8)).toNat.testBit (b % 8)

/-- Set the bit `b`. -/
def setBit (p : Bytes) (b : Nat) : Bytes :=
  Function.update p (b / 8) (UInt8.ofNat ((p (b / 8)).toNat ||| 2 ^ (b % 8)))

/-- Clear the bit `b`. -/
def clearBit (p : Bytes) (b : Nat) : Bytes :=
  Function.update p (b / 8) (UInt8.ofNat ((p (b / 8)).toNat &&& (255 ^^^ 2 ^ (b % 8))))

theorem testBit_byte (v : Nat) {k : Nat} (lt : k < 8) :
    (UInt8.ofNat v).toNat.testBit k = v.testBit k := by
  rw [toNat_ofNat_byte, show 256 = 2 ^ 8 from rfl, Nat.testBit_mod_two_pow]
  simp [lt]

theorem getBit_setBit : getBit (setBit p b) b' = (decide (b' = b) || getBit p b') := by
  have lt : b' % 8 < 8 := Nat.mod_lt _ (by omega)
  unfold getBit setBit
  by_cases same : b' / 8 = b / 8
  · have place : decide (b % 8 = b' % 8) = decide (b' = b) := decide_eq_decide.2 (by omega)
    rw [same, Function.update_self, testBit_byte _ lt, Nat.testBit_or, Nat.testBit_two_pow, place,
      Bool.or_comm]
  · have ne : b' ≠ b := fun eq => same (by rw [eq])
    rw [Function.update_of_ne same, decide_eq_false ne, Bool.false_or]

theorem getBit_clearBit : getBit (clearBit p b) b' = (!decide (b' = b) && getBit p b') := by
  have lt : b' % 8 < 8 := Nat.mod_lt _ (by omega)
  unfold getBit clearBit
  by_cases same : b' / 8 = b / 8
  · have place : decide (b % 8 = b' % 8) = decide (b' = b) := decide_eq_decide.2 (by omega)
    rw [same, Function.update_self, testBit_byte _ lt, Nat.testBit_and, Nat.testBit_xor,
      Nat.testBit_two_pow, show 255 = 2 ^ 8 - 1 from rfl, Nat.testBit_two_pow_sub_one, place,
      decide_eq_true lt, Bool.true_xor, Bool.and_comm]
  · have ne : b' ≠ b := fun eq => same (by rw [eq])
    rw [Function.update_of_ne same, decide_eq_false ne, Bool.not_false, Bool.true_and]

theorem getBit_congr (same : p (b / 8) = q (b / 8)) : getBit p b = getBit q b := by
  rw [getBit, getBit, same]

end Bytes

end NTux.Lib
