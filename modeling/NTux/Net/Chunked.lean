import NTux.Lib.Bytes
import NTux.Net.HttpHeader
import Mathlib.Data.List.TakeWhile
import Mathlib.Data.List.Induction

/-!
# Chunks

The part of `INT80_NET_HTTP_GET` that puts the chunks of a body together, in the buffer where
they were received.  The size of a chunk is read from the whole line in an `int`: every
character shifts it, whether it is a digit or not, and nothing compares it with what is there.

* `SizesFit` — what has to be true of the bytes for the loop to stay in the buffer.
* `Chunk`, `encode` — chunks as they are sent.
* `chunked_iff` — the loop ends inside the buffer exactly if the sizes fit, and it restores the
  data of chunks whose sizes it reads right.
-/

namespace NTux.Net

open NTux.Lib NTux.Lib.Bytes

/-! ## The code -/

/-- What has been received, in `buf`, and where its body begins. -/
structure Received where
  buf : Bytes
  total : Nat
  body : Nat
  bodyLe : body ≤ total
  small : total ≤ 65536
  ended : buf total = 0

/-- `src` and `dst`, as offsets in `buf`. -/
structure Decoder where
  buf : Bytes
  src : Nat
  dst : Nat
  decoded : Int

/-- `size_end`: where the first line at `i` ends, `n` bytes before the end. -/
def sizeEnd (buf : Bytes) : Nat → Nat → Option Nat
  | 0, _ => none
  | n + 1, i => if buf i = cr ∧ buf (i + 1) = lf then some i else sizeEnd buf n (i + 1)

/-- `chunk_sz`, as an `int`. -/
def chunkInt (line : List UInt8) : Int := (chunkSize line : Int).bmod (2 ^ 32)

/-- The loop over the chunks.  It returns nothing where `memmove` leaves the bytes received and
the zero behind them; the `size_t` of a negative size is larger than any buffer. -/
def decodeLoop (total : Nat) : Nat → Decoder → Option Decoder
  | 0, x => if x.src < total then none else some x
  | fuel + 1, x =>
      if x.src < total then
        match sizeEnd x.buf (total - x.src) x.src with
        | none => some x
        | some e =>
            let buf := Function.update x.buf e 0
            let chunkSz := chunkInt (slice x.buf x.src (e - x.src))
            let src := e + 2
            if chunkSz = 0 then some { x with buf := buf, src := src }
            else
              let n := (chunkSz % 2 ^ 64).toNat
              if total + 1 < src + n ∨ total + 1 < x.dst + n then none
              else decodeLoop total fuel
                { buf := splice buf x.dst n fun i => buf (src + i)
                  src := src + n + 2
                  dst := x.dst + n
                  decoded := x.decoded + chunkSz }
      else some x

/-- The decoder of a body in chunks. -/
def decodeChunks (r : Received) : Option Decoder :=
  decodeLoop r.total (r.total - r.body) ⟨r.buf, r.body, r.body, 0⟩

/-- The bytes of the body as they were received. -/
def Received.text (r : Received) : List UInt8 := slice r.buf r.body (r.total - r.body)

/-! ## What is expected -/

/-- The loop ends, inside the buffer, with a length between 0 and the number of bytes
received. -/
def StaysInside (r : Received) : Prop :=
  ∃ x, decodeChunks r = some x ∧ 0 ≤ x.decoded ∧ x.decoded ≤ r.total

/-- Each size read is at most the number of bytes behind its line, the zero at the end
included, and none is negative, up to the line where the loop ends. -/
def SizesFit : Nat → List UInt8 → Prop
  | 0, _ => True
  | fuel + 1, s =>
      match cutSeq crlf s with
      | none => True
      | some (line, rest) =>
          chunkInt line = 0 ∨ ∃ n : Nat, chunkInt line = n ∧ 0 < n ∧ n ≤ rest.length + 1 ∧
            SizesFit fuel (rest.drop (n + 2))

/-- The value of hexadecimal digits. -/
def hexNumber (size : List UInt8) : Nat := size.foldl (fun v c => v * 16 + hexValue c) 0

def IsHex (c : UInt8) : Prop := (48 ≤ c ∧ c ≤ 57) ∨ (97 ≤ c ∧ c ≤ 102) ∨ (65 ≤ c ∧ c ≤ 70)

def semicolon : UInt8 := 59

/-- A chunk: the digits of its size, an extension or none, and data. -/
structure Chunk where
  size : List UInt8
  ext : List UInt8
  data : List UInt8
  sizeHex : size ≠ [] ∧ ∀ c ∈ size, IsHex c
  sizeOf : hexNumber size = data.length
  extForm : ext = [] ∨ ext.head? = some semicolon
  extClean : cr ∉ ext ∧ lf ∉ ext ∧ 0 ∉ ext
  dataSome : data ≠ []

/-- The chunk that ends a body: a size of zero, an extension or none, and what follows its
line. -/
structure LastChunk where
  size : List UInt8
  ext : List UInt8
  trailer : List UInt8
  sizeHex : size ≠ [] ∧ ∀ c ∈ size, IsHex c
  sizeOf : hexNumber size = 0
  extForm : ext = [] ∨ ext.head? = some semicolon
  extClean : cr ∉ ext ∧ lf ∉ ext ∧ 0 ∉ ext

/-- Chunks as they are sent. -/
def encode (chunks : List Chunk) (last : LastChunk) : List UInt8 :=
  chunks.flatMap (fun c => c.size ++ c.ext ++ (crlf ++ (c.data ++ crlf))) ++
    (last.size ++ last.ext ++ (crlf ++ last.trailer))

/-- The decoder leaves the data of the chunks where the body began. -/
def Restores (r : Received) (chunks : List Chunk) : Prop :=
  ∃ x, decodeChunks r = some x ∧ x.decoded = (chunks.flatMap Chunk.data).length ∧
    slice x.buf r.body (chunks.flatMap Chunk.data).length = chunks.flatMap Chunk.data

/-- The `int` that is read from each line is the size that it says. -/
def SizesRead (chunks : List Chunk) (last : LastChunk) : Prop :=
  (∀ c ∈ chunks, chunkInt (c.size ++ c.ext) = c.data.length) ∧
    chunkInt (last.size ++ last.ext) = 0

/-! ## Lines -/

theorem crlf_isPrefixOf (a b : UInt8) (s : List UInt8) :
    crlf.isPrefixOf (a :: b :: s) = true ↔ a = cr ∧ b = lf := by
  rw [ List.isPrefixOf_iff_prefix, crlf, List.cons_prefix_cons, List.cons_prefix_cons]
  constructor
  · rintro ⟨rfl, rfl, -⟩
    exact ⟨rfl, rfl⟩
  · rintro ⟨rfl, rfl⟩
    exact ⟨rfl, rfl, List.nil_prefix⟩

/-- The line that is found is the text before the first end of a line. -/
theorem sizeEnd_eq {buf : Bytes} {total : Nat} (ended : buf total = 0) {n i : Nat}
    (stop : i + n = total) :
    match cutSeq crlf (slice buf i n) with
    | none => sizeEnd buf n i = none
    | some (line, rest) => sizeEnd buf n i = some (i + line.length) ∧
        line = slice buf i line.length ∧
        i + line.length + 2 + rest.length = total ∧
        rest = slice buf (i + line.length + 2) rest.length := by
  induction n generalizing i with
  | zero => rfl
  | succ n ih =>
      rw [slice_succ, cutSeq, sizeEnd]
      have here : crlf.isPrefixOf (buf i :: slice buf (i + 1) n) = true ↔
          buf i = cr ∧ buf (i + 1) = lf := by
        cases n with
        | zero =>
            have zero : buf (i + 1) ≠ lf := by
              rw [show i + 1 = total by omega, ended]
              decide
            simp [crlf, slice, zero, List.isPrefixOf]
        | succ n =>
            rw [slice_succ]
            exact crlf_isPrefixOf _ _ _
      by_cases found : buf i = cr ∧ buf (i + 1) = lf
      · rw [if_pos (here.mpr found), if_pos found]
        have two : 1 ≤ n := by
          by_contra none
          have zero : n = 0 := by omega
          subst zero
          rw [show i + 1 = total by omega, ended] at found
          exact absurd found.2 (by decide)
        have rest : (buf i :: slice buf (i + 1) n).drop crlf.length =
            slice buf (i + 2) (n - 1) := by
          obtain ⟨m, rfl⟩ := Nat.exists_eq_add_of_le two
          rw [slice_add]
          simp [crlf, slice]
        refine ⟨rfl, rfl, ?_, ?_⟩
        · rw [rest, slice_length]
          simp only [List.length_nil]
          omega
        · rw [rest, slice_length]
          rfl
      · rw [if_neg (by rw [here]; exact found), if_neg found]
        have next := ih (i := i + 1) (by omega)
        cases cut : cutSeq crlf (slice buf (i + 1) n) with
        | none =>
            rw [cut] at next
            exact next
        | some p =>
            obtain ⟨line, rest⟩ := p
            rw [cut] at next
            obtain ⟨at_, text, length, behind⟩ := next
            simp only [Option.map_some]
            rw [List.length_cons, show i + (line.length + 1) = i + 1 + line.length by omega]
            refine ⟨at_, ?_, length, behind⟩
            rw [slice_succ, ← text]

/-! ## The loop -/

/-- The data that the loop puts together. -/
def chunkData : Nat → List UInt8 → List UInt8
  | 0, _ => []
  | fuel + 1, s =>
      match cutSeq crlf s with
      | none => []
      | some (line, rest) =>
          if chunkInt line = 0 then []
          else (rest ++ [0]).take (chunkInt line).toNat ++
            chunkData fuel (rest.drop ((chunkInt line).toNat + 2))

/-- Where the loop stands: what is not read yet is as it was received. -/
structure Standing (r : Received) (x : Decoder) : Prop where
  behind : x.dst ≤ x.src
  unread : ∀ i, x.src ≤ i → x.buf i = r.buf i
  counted : x.decoded = (x.dst : Int) - r.body
  from_ : r.body ≤ x.dst
  within : x.dst ≤ r.total

/-- What a run of the loop does from where it stands. -/
structure Decoded (r : Received) (x y : Decoder) (data : List UInt8) : Prop where
  standing : Standing r y
  stored : slice y.buf x.dst data.length = data
  before : ∀ i, i < x.dst → y.buf i = x.buf i
  length : y.dst = x.dst + data.length

theorem chunkInt_range (line : List UInt8) : -2 ^ 31 ≤ chunkInt line ∧ chunkInt line < 2 ^ 31 := by
  have low := Int.le_bmod (x := (chunkSize line : Int)) (m := 2 ^ 32) (by decide)
  have high := Int.bmod_lt (x := (chunkSize line : Int)) (m := 2 ^ 32) (by decide)
  unfold chunkInt
  omega

/-- What is put in the place of the size when it is used as a `size_t`. -/
theorem sizeT_of_neg {v : Int} (neg : v < 0) (low : -2 ^ 31 ≤ v) :
    2 ^ 63 ≤ (v % 2 ^ 64).toNat := by omega

theorem sizeT_of_nonneg {v : Int} (nonneg : 0 ≤ v) (high : v < 2 ^ 31) :
    (v % 2 ^ 64).toNat = v.toNat := by omega

/-- A chunk moved to the place of those before it. -/
def moveChunk (x : Decoder) (buf : Bytes) (src n : Nat) : Decoder where
  buf := splice buf x.dst n fun i => buf (src + i)
  src := src + n + 2
  dst := x.dst + n
  decoded := x.decoded + n

/-- Behind the chunk nothing has changed. -/
theorem movedChunk {r : Received} {x : Decoder} {buf : Bytes} {src n : Nat}
    (standing : Standing r x) (kept : ∀ i, src ≤ i → buf i = r.buf i) (order : x.dst + 2 ≤ src)
    (inside : src + n ≤ r.total + 1) : Standing r (moveChunk x buf src n) := by
  have counted := standing.counted
  have before := standing.from_
  refine ⟨?_, fun i le => ?_, ?_, ?_, ?_⟩
  · change x.dst + n ≤ src + n + 2
    omega
  · change src + n + 2 ≤ i at le
    change splice buf x.dst n (fun i => buf (src + i)) i = r.buf i
    rw [splice_of_apart (by omega)]
    exact kept i (by omega)
  · change x.decoded + n = ((x.dst + n : Nat) : Int) - r.body
    omega
  · change r.body ≤ x.dst + n
    omega
  · change x.dst + n ≤ r.total
    omega

/-- A chunk that is moved is in front of what the loop does then. -/
theorem Decoded.moved {r : Received} {x y : Decoder} {buf : Bytes} {src n : Nat}
    {data : List UInt8} (done : Decoded r (moveChunk x buf src n) y data)
    (kept : ∀ i, src ≤ i → buf i = r.buf i) (low : ∀ i, i < x.dst → buf i = x.buf i) :
    Decoded r x y (slice r.buf src n ++ data) := by
  have stored : slice y.buf x.dst n = slice r.buf src n := by
    refine slice_congr fun i lt => ?_
    rw [done.before _ (by change x.dst + i < x.dst + n; omega)]
    change splice buf x.dst n (fun i => buf (src + i)) (x.dst + i) = _
    rw [splice_of_mem lt]
    exact kept _ (by omega)
  refine ⟨done.standing, ?_, fun i lt => ?_, ?_⟩
  · rw [List.length_append, slice_length, slice_add, stored]
    exact congrArg _ done.stored
  · rw [done.before i (by change i < x.dst + n; omega)]
    change splice buf x.dst n (fun i => buf (src + i)) i = _
    rw [splice_of_apart (by omega)]
    exact low i lt
  · have length := done.length
    change y.dst = x.dst + n + data.length at length
    rw [List.length_append, slice_length]
    omega

/-- A line that the loop finds, and what has been received behind it. -/
structure FoundLine (r : Received) (x : Decoder) (line rest : List UInt8) : Prop where
  stop : sizeEnd x.buf (r.total - x.src) x.src = some (x.src + line.length)
  text : slice x.buf x.src line.length = line
  length : x.src + line.length + 2 + rest.length = r.total
  behind : rest = slice r.buf (x.src + line.length + 2) rest.length

/-- The loop finds the line that the text received begins with. -/
theorem Standing.found {r : Received} {x : Decoder} (standing : Standing r x)
    (more : x.src < r.total) :
    (cutSeq crlf (slice r.buf x.src (r.total - x.src)) = none ∧
      sizeEnd x.buf (r.total - x.src) x.src = none) ∨
    ∃ line rest, cutSeq crlf (slice r.buf x.src (r.total - x.src)) = some (line, rest) ∧
      FoundLine r x line rest := by
  have same : slice x.buf x.src (r.total - x.src) = slice r.buf x.src (r.total - x.src) :=
    slice_congr fun i lt => standing.unread _ (by omega)
  have ended : x.buf r.total = 0 := by rw [standing.unread _ (by omega), r.ended]
  have found := sizeEnd_eq ended (show x.src + (r.total - x.src) = r.total by omega)
  rw [same] at found
  cases cut : cutSeq crlf (slice r.buf x.src (r.total - x.src)) with
  | none =>
      rw [cut] at found
      exact .inl ⟨rfl, found⟩
  | some p =>
      obtain ⟨line, rest⟩ := p
      rw [cut] at found
      obtain ⟨stop, text, length, behind⟩ := found
      refine .inr ⟨line, rest, rfl, stop, text.symm, length, ?_⟩
      rw [← slice_congr fun i lt => standing.unread _ (by omega)]
      exact behind

section Line

variable {r : Received} {x : Decoder} {line rest : List UInt8}

/-- The zero behind the line is in front of what is not read yet. -/
theorem Standing.kept (standing : Standing r x) (line : List UInt8) {i : Nat}
    (le : x.src + line.length + 2 ≤ i) :
    Function.update x.buf (x.src + line.length) 0 i = r.buf i := by
  rw [Function.update_of_ne (by omega)]
  exact standing.unread i (by omega)

/-- The data of a chunk, which may have the zero behind the bytes received. -/
theorem FoundLine.chunk (found : FoundLine r x line rest) {n : Nat} (le : n ≤ rest.length + 1) :
    (rest ++ [0]).take n = slice r.buf (x.src + line.length + 2) n := by
  have ends : rest ++ [0] = slice r.buf (x.src + line.length + 2) (rest.length + 1) := by
    rw [← slice_append_end, ← found.behind, found.length, r.ended]
  rw [ends, slice_take le]

/-- What has been received behind a chunk and the end of its line. -/
theorem FoundLine.left (found : FoundLine r x line rest) (n : Nat) :
    rest.drop (n + 2) =
      slice r.buf (x.src + line.length + 2 + n + 2)
        (r.total - (x.src + line.length + 2 + n + 2)) := by
  have length := found.length
  have start : x.src + line.length + 2 + (n + 2) = x.src + line.length + 2 + n + 2 := by omega
  have left : rest.length - (n + 2) = r.total - (x.src + line.length + 2 + n + 2) := by omega
  rw [found.behind, slice_drop, start, left]

/-- The loop ends behind a size of zero. -/
theorem Standing.lineEnd (standing : Standing r x) (line : List UInt8) :
    Decoded r x ⟨Function.update x.buf (x.src + line.length) 0, x.src + line.length + 2, x.dst,
      x.decoded⟩ [] := by
  have near := standing.behind
  refine ⟨⟨?_, fun i le => standing.kept line le, standing.counted, standing.from_,
    standing.within⟩, rfl, fun i lt => Function.update_of_ne (by omega) _ _, rfl⟩
  dsimp only
  omega

end Line

/-- The loop ends where the sizes fit, with the data of the chunks behind what was there, and
leaves the buffer where they do not. -/
theorem decodeLoop_spec (r : Received) (fuel : Nat) (x : Decoder) (standing : Standing r x)
    (enough : r.total - x.src ≤ fuel) :
    (SizesFit fuel (slice r.buf x.src (r.total - x.src)) ∧
      ∃ y, decodeLoop r.total fuel x = some y ∧
        Decoded r x y (chunkData fuel (slice r.buf x.src (r.total - x.src)))) ∨
    (¬SizesFit fuel (slice r.buf x.src (r.total - x.src)) ∧
      decodeLoop r.total fuel x = none) := by
  have stay : Decoded r x x [] := ⟨standing, rfl, fun i lt => rfl, rfl⟩
  induction fuel generalizing x with
  | zero =>
      refine .inl ⟨trivial, x, ?_, stay⟩
      rw [decodeLoop, if_neg (by omega)]
  | succ fuel ih =>
      by_cases more : x.src < r.total
      · rw [decodeLoop, if_pos more, SizesFit, chunkData]
        rcases standing.found more with ⟨cut, none⟩ | ⟨line, rest, cut, found⟩
        · rw [cut, none]
          exact .inl ⟨trivial, x, rfl, stay⟩
        · rw [cut, found.stop]
          dsimp only
          rw [Nat.add_sub_cancel_left, found.text]
          have range := chunkInt_range line
          have near := standing.behind
          have small := r.small
          have length := found.length
          by_cases zero : chunkInt line = 0
          · rw [if_pos zero, if_pos zero]
            exact .inl ⟨.inl zero, _, rfl, standing.lineEnd line⟩
          · rw [if_neg zero, if_neg zero]
            rcases Int.lt_or_gt_of_ne zero with neg | pos
            · have huge := sizeT_of_neg neg range.1
              rw [if_pos (.inl (by omega))]
              refine .inr ⟨?_, rfl⟩
              rintro (eq | ⟨n, eq, -⟩) <;> omega
            · rw [sizeT_of_nonneg (by omega) range.2]
              obtain ⟨n, eq⟩ := Int.eq_ofNat_of_zero_le (by omega : 0 ≤ chunkInt line)
              rw [eq, Int.toNat_natCast]
              have some : 0 < n := by omega
              by_cases out : r.total + 1 < x.src + line.length + 2 + n
              · rw [if_pos (.inl out)]
                refine .inr ⟨?_, rfl⟩
                rintro (none | ⟨m, same, -, fits, -⟩) <;> omega
              · rw [if_neg (by omega)]
                have moved := movedChunk (n := n) standing (fun i le => standing.kept line le)
                  (by omega) (by omega)
                have next := ih (moveChunk x _ _ n) moved
                  (by change r.total - (x.src + line.length + 2 + n + 2) ≤ fuel; omega)
                  ⟨moved, rfl, fun i lt => rfl, rfl⟩
                have fromHere : slice r.buf (moveChunk x (Function.update x.buf
                    (x.src + line.length) 0) (x.src + line.length + 2) n).src
                    (r.total - (moveChunk x (Function.update x.buf (x.src + line.length) 0)
                      (x.src + line.length + 2) n).src) = rest.drop (n + 2) :=
                  (found.left n).symm
                rw [fromHere] at next
                rcases next with ⟨fits, y, run, done⟩ | ⟨full, run⟩
                · refine .inl ⟨.inr ⟨n, rfl, some, by omega, fits⟩, y, run, ?_⟩
                  rw [found.chunk (by omega)]
                  exact done.moved (fun i le => standing.kept line le)
                    fun i lt => Function.update_of_ne (by omega) _ _
                · refine .inr ⟨?_, run⟩
                  rintro (none | ⟨m, same, -, -, fits⟩)
                  · omega
                  · obtain rfl : n = m := by omega
                    exact full fits
      · have none : slice r.buf x.src (r.total - x.src) = [] := by
          rw [Nat.sub_eq_zero_of_le (by omega)]
          rfl
        rw [none, decodeLoop, if_neg more]
        exact .inl ⟨trivial, x, rfl, stay⟩

/-! ## Bodies -/

theorem Received.standing (r : Received) : Standing r ⟨r.buf, r.body, r.body, 0⟩ :=
  ⟨Nat.le_refl _, fun _ _ => rfl, (Int.sub_self _).symm, Nat.le_refl _, r.bodyLe⟩

/-- The decoder stays in the buffer where the sizes fit, and with them puts the data of the
chunks together. -/
theorem decodeChunks_spec (r : Received) :
    (SizesFit (r.total - r.body) r.text ∧ ∃ x, decodeChunks r = some x ∧
      Decoded r ⟨r.buf, r.body, r.body, 0⟩ x (chunkData (r.total - r.body) r.text)) ∨
    (¬SizesFit (r.total - r.body) r.text ∧ decodeChunks r = none) :=
  decodeLoop_spec r _ _ r.standing (Nat.le_refl _)

theorem staysInside_iff (r : Received) : StaysInside r ↔ SizesFit (r.total - r.body) r.text := by
  rcases decodeChunks_spec r with ⟨fits, x, run, done⟩ | ⟨full, run⟩
  · have counted := done.standing.counted
    have low := done.standing.from_
    have high := done.standing.within
    exact ⟨fun _ => fits, fun _ => ⟨x, run, by omega, by omega⟩⟩
  · refine ⟨?_, fun fits => absurd fits full⟩
    rintro ⟨x, eq, -⟩
    rw [run] at eq
    cases eq

theorem isHex_ne {c : UInt8} (hex : IsHex c) : c ≠ cr := by
  rintro rfl
  revert hex
  unfold IsHex
  decide

/-- The lines of chunks whose sizes are read right are cut out one after the other. -/
theorem chunkData_encode (chunks : List Chunk) (last : LastChunk) (read : SizesRead chunks last)
    {fuel : Nat} (enough : (encode chunks last).length ≤ fuel) :
    SizesFit fuel (encode chunks last) ∧
      chunkData fuel (encode chunks last) = chunks.flatMap Chunk.data := by
  have clean : ∀ size ext : List UInt8, (∀ c ∈ size, IsHex c) → cr ∉ ext → cr ∉ size ++ ext := by
    intro size ext hex noCr mem
    rcases List.mem_append.mp mem with mem | mem
    · exact isHex_ne (hex _ mem) rfl
    · exact noCr mem
  induction chunks generalizing fuel with
  | nil =>
      have text : encode [] last = last.size ++ last.ext ++ (crlf ++ last.trailer) := rfl
      have cut := cutSeq_crlf (s := last.trailer)
        (clean _ _ last.sizeHex.2 last.extClean.1)
      cases fuel with
      | zero =>
          rw [text] at enough
          simp [crlf] at enough
      | succ fuel =>
          rw [text, SizesFit, chunkData, cut]
          exact ⟨.inl read.2, if_pos read.2⟩
  | cons c chunks ih =>
      have text : encode (c :: chunks) last =
          c.size ++ c.ext ++ (crlf ++ (c.data ++ (crlf ++ encode chunks last))) := by
        simp [encode]
      have cut := cutSeq_crlf (s := c.data ++ (crlf ++ encode chunks last))
        (clean _ _ c.sizeHex.2 c.extClean.1)
      have value := read.1 c List.mem_cons_self
      have pos : 0 < c.data.length := List.length_pos_of_ne_nil c.dataSome
      have two : crlf.length = 2 := rfl
      cases fuel with
      | zero =>
          rw [text] at enough
          simp [crlf] at enough
      | succ fuel =>
          have behind : (c.data ++ (crlf ++ encode chunks last)).drop (c.data.length + 2) =
              encode chunks last := by
            rw [← List.append_assoc]
            exact List.drop_left' (by rw [List.length_append, two])
          have front : (c.data ++ (crlf ++ encode chunks last) ++ [0]).take c.data.length =
              c.data := by
            rw [List.append_assoc, List.take_left' rfl]
          have shorter : (encode chunks last).length ≤ fuel := by
            rw [text] at enough
            simp only [List.length_append, two] at enough
            omega
          obtain ⟨fits, data⟩ :=
            ih ⟨fun d mem => read.1 d (List.mem_cons_of_mem _ mem), read.2⟩ shorter
          rw [text, SizesFit, chunkData, cut]
          dsimp only
          rw [value, Int.toNat_natCast, behind, front, data, if_neg (by omega)]
          refine ⟨.inr ⟨c.data.length, rfl, pos, ?_, ?_⟩, rfl⟩
          · rw [List.length_append]
            omega
          · rw [behind]
            exact fits

/-- The loop ends inside the buffer exactly if the sizes fit, and chunks whose sizes it reads
right are restored. -/
theorem chunked_iff (r : Received) :
    (StaysInside r ↔ SizesFit (r.total - r.body) r.text) ∧
      ∀ chunks last, r.text = encode chunks last → SizesRead chunks last → Restores r chunks := by
  refine ⟨staysInside_iff r, fun chunks last text read => ?_⟩
  have length : (encode chunks last).length = r.total - r.body := by
    rw [← text, Received.text, slice_length]
  obtain ⟨fits, data⟩ := chunkData_encode chunks last read length.le
  rw [← text] at fits data
  rcases decodeChunks_spec r with ⟨-, x, run, done⟩ | ⟨full, -⟩
  · rw [data] at done
    have counted := done.standing.counted
    have stop := done.length
    refine ⟨x, run, ?_, done.stored⟩
    dsimp only at stop
    omega
  · exact absurd fits full

/-- A body whose chunk of five bytes has the extension `;x`. -/
def extended : Received where
  buf i := (ascii "5;x\r\nhello\r\n0\r\n\r\n").getD i 0
  total := 17
  body := 0
  bodyLe := by decide
  small := by decide
  ended := by decide

/-- The extension makes a size of 1280 of the five, and the loop leaves the buffer. -/
theorem extension_leaves_buffer : ¬StaysInside extended := by
  have run : (decodeChunks extended).isNone = true := by decide +kernel
  rintro ⟨x, eq, -⟩
  rw [eq] at run
  cases run

end NTux.Net
