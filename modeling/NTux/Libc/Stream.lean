import NTux.Lib.Bytes
import NTux.Libc.Format

/-!
# Streams

A `FILE` opened for writing, of `libc/stdio.c`: `fwrite`, `fputs`, `fprintf`, `fseek`, `ftell`
and `fclose`.  The data is kept in a buffer that is enlarged by `realloc`; position, length and
capacity change apart from one another.  `out_char` has no place to put a character of such a
stream, so `fprintf` only counts.

* `Content` — the bytes of a file and a position, which the calls should act on.
* `Faithful` — after every call, the file that `fclose` would store and what `ftell` returns are
  those, whatever `realloc` finds in new memory.
* `stream_faithful_iff` — it holds exactly for the calls that print nothing with `fprintf` and
  never write behind the end.
-/

namespace NTux.Libc

open NTux.Fs NTux.Lib NTux.Lib.Bytes

/-! ## The code -/

/-- `ntux_file_t`, in mode `NTUX_FILE_WRITE`. -/
structure Stream where
  pos : Nat
  len : Nat
  cap : Nat
  dirty : Bool
  buf : Bytes

/-- `fopen` for writing. -/
def fopen : Stream := ⟨0, 0, 0, true, fun _ => 0⟩

/-- The largest capacity, 16 MiB. -/
def maxCap : Nat := 16 * 1024 * 1024

/-- The loop of `ensure_write_cap`. -/
def growCap (need : Nat) : Nat → Nat → Option Nat
  | 0, _ => none
  | fuel + 1, newCap =>
      if newCap < need then if maxCap < newCap * 2 then none else growCap need fuel (newCap * 2)
      else some newCap

/-- `ensure_write_cap`, where `fresh` is what is found in the memory that `realloc` adds.  Its
loop ends after 16 turns at the latest. -/
def ensureWriteCap (f : Stream) (need : Nat) (fresh : Bytes) : Option Stream :=
  if need ≤ f.cap then some f
  else (growCap need 17 (if f.cap = 0 then 512 else f.cap)).map fun newCap =>
    { f with cap := newCap, buf := fun i => if i < f.cap then f.buf i else fresh i }

/-- `fwrite` of the bytes `data`. -/
def fwrite (f : Stream) (data : List UInt8) (fresh : Bytes) : Stream :=
  if data = [] then f
  else match ensureWriteCap f (f.pos + data.length) fresh with
    | none => f
    | some f =>
        { f with
          buf := splice f.buf f.pos data.length fun i => data.getD i 0
          pos := f.pos + data.length
          len := max f.len (f.pos + data.length)
          dirty := true }

/-- What `out_char` does with a character of a file: it is counted. -/
def fileOutChar (x : Stream × Int) (_c : UInt8) : Stream × Int := (x.1, int32 (x.2 + 1))

/-- `vfprintf`. -/
def vfprintf (f : Stream) (fmt : CString) (va : Nat → Arg) : Stream × Int :=
  formatTo fileOutChar va fmt.length 0 fmt (f, 0)

/-- The values of `whence`. -/
inductive Whence
  | set
  | cur
  | fromEnd
  | other
  deriving DecidableEq

/-- The place that an offset is counted from. -/
def Whence.base (pos len : Nat) : Whence → Option Nat
  | set => some 0
  | cur => some pos
  | fromEnd => some len
  | other => none

/-- `fseek`. -/
def fseek (f : Stream) (off : BitVec 64) (whence : Whence) (fresh : Bytes) : Stream :=
  match whence.base f.pos f.len with
  | none => f
  | some base =>
      let np := ((base : Int) + off.toInt).bmod (2 ^ 64)
      if np < 0 then f
      else match ensureWriteCap f np.toNat fresh with
        | none => f
        | some f => { f with pos := np.toNat }

/-- `ftell`. -/
def ftell (f : Stream) : Nat := f.pos

/-- What is in the file after `fclose`, if it held `old`. -/
def fclose (f : Stream) (old : List UInt8) : List UInt8 :=
  if f.dirty then slice f.buf 0 f.len else old

/-- A call. -/
inductive Call
  | fwrite (data : List UInt8)
  | fputs (s : CString)
  | fprintf (fmt : CString) (va : Nat → Arg)
  | fseek (off : BitVec 64) (whence : Whence)
  | ftell

/-- What a call does to the stream. -/
def Stream.step (f : Stream) (call : Call) (fresh : Bytes) : Stream :=
  match call with
  | .fwrite data => NTux.Libc.fwrite f data fresh
  | .fputs s => NTux.Libc.fwrite f s fresh
  | .fprintf fmt va => (vfprintf f fmt va).1
  | .fseek off whence => NTux.Libc.fseek f off whence fresh
  | .ftell => f

/-! ## What is expected -/

/-- A file and a position. -/
structure Content where
  bytes : List UInt8
  pos : Nat

/-- The bytes that a call puts into the file. -/
def Call.output : Call → List UInt8
  | fwrite data => data
  | fputs s => s
  | fprintf fmt va => formatted fmt va
  | fseek _ _ => []
  | ftell => []

/-- Bytes put at a position, with zeros in front of them if it is behind the end. -/
def overwrite (bytes : List UInt8) (pos : Nat) (data : List UInt8) : List UInt8 :=
  (bytes ++ List.replicate (pos - bytes.length) 0).take pos ++ data ++
    bytes.drop (pos + data.length)

/-- Bytes are written at the position; what would end behind 16 MiB is refused. -/
def Content.write (a : Content) (data : List UInt8) : Content :=
  if data = [] ∨ maxCap < a.pos + data.length then a
  else ⟨overwrite a.bytes a.pos data, a.pos + data.length⟩

/-- The position is set; one in front of the file or behind 16 MiB is refused. -/
def Content.seek (a : Content) (off : Int) (whence : Whence) : Content :=
  match whence.base a.pos a.bytes.length with
  | none => a
  | some base =>
      if (base : Int) + off < 0 ∨ (maxCap : Int) < base + off then a
      else { a with pos := ((base : Int) + off).toNat }

/-- What a call should do. -/
def Content.step (a : Content) (call : Call) : Content :=
  match call with
  | .fseek off whence => a.seek off.toInt whence
  | call => a.write call.output

/-- A call with what `realloc` finds if it is called. -/
abbrev MemCall := Call × Bytes

/-- The stream behind some calls. -/
def Stream.run (f : Stream) (calls : List MemCall) : Stream :=
  calls.foldl (fun f c => f.step c.1 c.2) f

/-- What the calls should lead to. -/
def Content.run (a : Content) (calls : List Call) : Content := calls.foldl Content.step a

/-- `fclose` would store the bytes, and `ftell` returns the position. -/
def Shows (f : Stream) (a : Content) : Prop := (∀ old, fclose f old = a.bytes) ∧ ftell f = a.pos

/-- After each of the calls the stream shows what it should, whatever is found in memory. -/
def Faithful (calls : List Call) : Prop :=
  ∀ run : List MemCall, run.map Prod.fst = calls → ∀ part, part <+: run →
    Shows (fopen.run part) ((⟨[], 0⟩ : Content).run (part.map Prod.fst))

/-- The call puts out nothing, or is refused, or is no `fprintf` and writes where the file has
bytes up to the position. -/
def Content.Plain (a : Content) (call : Call) : Prop :=
  call.output = [] ∨ maxCap < a.pos + call.output.length ∨
    ((∀ fmt va, call ≠ .fprintf fmt va) ∧ a.pos ≤ a.bytes.length)

/-- Every call is plain where it is made. -/
def Content.PlainRun : Content → List Call → Prop
  | _, [] => True
  | a, call :: calls => a.Plain call ∧ (a.step call).PlainRun calls

/-! ## The capacity -/

/-- A capacity is nothing, or 512 bytes doubled up to 15 times. -/
def IsCap (cap : Nat) : Prop := cap = 0 ∨ ∃ k ≤ 15, cap = 512 * 2 ^ k

theorem growCap_spec {need k fuel : Nat} (small : need ≤ maxCap) (le : k ≤ 15)
    (enough : 15 < k + fuel) :
    ∃ k' ≤ 15, growCap need fuel (512 * 2 ^ k) = some (512 * 2 ^ k') ∧ k ≤ k' ∧
      need ≤ 512 * 2 ^ k' := by
  induction fuel generalizing k with
  | zero => omega
  | succ fuel ih =>
      rw [growCap]
      by_cases less : 512 * 2 ^ k < need
      · have lt : k < 15 := by
          by_contra ge
          have eq : k = 15 := by omega
          subst eq
          unfold maxCap at small
          omega
        have next : 512 * 2 ^ k * 2 = 512 * 2 ^ (k + 1) := by
          rw [Nat.pow_succ, Nat.mul_assoc]
        have bound : 2 ^ (k + 1) ≤ 2 ^ 15 := Nat.pow_le_pow_right (by decide) (by omega)
        have fits : ¬maxCap < 512 * 2 ^ k * 2 := by
          rw [next]
          unfold maxCap
          omega
        rw [if_pos less, if_neg fits, next]
        obtain ⟨k', le', run, mono, room⟩ := ih (k := k + 1) (by omega) (by omega)
        exact ⟨k', le', run, by omega, room⟩
      · rw [if_neg less]
        exact ⟨k, le, rfl, Nat.le_refl k, by omega⟩

theorem growCap_large {need : Nat} (large : maxCap < need) (fuel c : Nat) (le : c ≤ maxCap) :
    growCap need fuel c = none := by
  induction fuel generalizing c with
  | zero => rfl
  | succ fuel ih =>
      rw [growCap, if_pos (by omega)]
      split_ifs with large'
      · rfl
      · exact ih _ (by omega)

theorem IsCap.le {cap : Nat} (isCap : IsCap cap) : cap ≤ maxCap := by
  rcases isCap with rfl | ⟨k, le, rfl⟩
  · exact Nat.zero_le _
  · have bound : 2 ^ k ≤ 2 ^ 15 := Nat.pow_le_pow_right (by decide) le
    unfold maxCap
    omega

/-- What `ensure_write_cap` leaves of a stream, and what it adds. -/
structure Grown (f f' : Stream) (need : Nat) (fresh : Bytes) : Prop where
  isCap : IsCap f'.cap
  room : need ≤ f'.cap
  more : f.cap ≤ f'.cap
  same : f'.pos = f.pos ∧ f'.len = f.len ∧ f'.dirty = f.dirty
  kept : ∀ i, i < f.cap → f'.buf i = f.buf i
  added : ∀ i, f.cap ≤ i → i < f'.cap → f'.buf i = fresh i

theorem ensureWriteCap_spec {f : Stream} (isCap : IsCap f.cap) (need : Nat) (fresh : Bytes) :
    (need ≤ maxCap ∧ ∃ f', ensureWriteCap f need fresh = some f' ∧ Grown f f' need fresh) ∨
    (maxCap < need ∧ ensureWriteCap f need fresh = none) := by
  by_cases room : need ≤ f.cap
  · refine .inl ⟨room.trans isCap.le, f, if_pos room, isCap, room, Nat.le_refl _,
      ⟨rfl, rfl, rfl⟩, fun _ _ => rfl, fun i le lt => ?_⟩
    omega
  · rw [ensureWriteCap, if_neg room]
    obtain ⟨k, le, start, low⟩ : ∃ k ≤ 15, (if f.cap = 0 then 512 else f.cap) = 512 * 2 ^ k ∧
        f.cap ≤ 512 * 2 ^ k := by
      rcases isCap with zero | ⟨k, le, eq⟩
      · exact ⟨0, by decide, by rw [if_pos zero]; rfl, by omega⟩
      · have pos : 0 < 2 ^ k := Nat.two_pow_pos k
        exact ⟨k, le, by rw [if_neg (by omega), eq], eq.le⟩
    by_cases small : need ≤ maxCap
    · obtain ⟨k', le', run, mono, enough⟩ := growCap_spec small le (show 15 < k + 17 by omega)
      have higher : 2 ^ k ≤ 2 ^ k' := Nat.pow_le_pow_right (by decide) mono
      refine .inl ⟨small,
        { f with cap := 512 * 2 ^ k', buf := fun i => if i < f.cap then f.buf i else fresh i },
        by rw [start, run]; rfl, .inr ⟨k', le', rfl⟩, enough, ?_, ⟨rfl, rfl, rfl⟩,
        fun i lt => if_pos lt, fun i ge _ => if_neg (by omega)⟩
      exact low.trans (Nat.mul_le_mul_left 512 higher)
    · have limit : 512 * 2 ^ k ≤ maxCap := IsCap.le (.inr ⟨k, le, rfl⟩)
      refine .inr ⟨by omega, ?_⟩
      rw [start, growCap_large (by omega) 17 _ limit]
      rfl

/-! ## Writing -/

/-- What is true of a stream all the time. -/
structure Stream.Inv (f : Stream) : Prop where
  isCap : IsCap f.cap
  lenLe : f.len ≤ f.cap
  posLe : f.pos ≤ f.cap
  dirty : f.dirty = true

/-- The stream holds the file. -/
def Agrees (f : Stream) (a : Content) : Prop := slice f.buf 0 f.len = a.bytes ∧ f.pos = a.pos

theorem Agrees.length {f : Stream} {a : Content} (agrees : Agrees f a) :
    f.len = a.bytes.length := by
  rw [← agrees.1, slice_length]

theorem shows_iff {f : Stream} {a : Content} (inv : f.Inv) : Shows f a ↔ Agrees f a := by
  have stored : ∀ old, fclose f old = slice f.buf 0 f.len := fun old => if_pos inv.dirty
  simp only [Shows, Agrees, stored, ftell, forall_const]

/-- Everything `fwrite` can do. -/
theorem fwrite_cases {f : Stream} (inv : f.Inv) (data : List UInt8) (fresh : Bytes) :
    ((data = [] ∨ maxCap < f.pos + data.length) ∧ fwrite f data fresh = f) ∨
    (data ≠ [] ∧ f.pos + data.length ≤ maxCap ∧ ∃ f', Grown f f' (f.pos + data.length) fresh ∧
      fwrite f data fresh =
        { f' with
          buf := splice f'.buf f.pos data.length fun i => data.getD i 0
          pos := f.pos + data.length
          len := max f.len (f.pos + data.length)
          dirty := true }) := by
  by_cases empty : data = []
  · exact .inl ⟨.inl empty, if_pos empty⟩
  · rw [fwrite, if_neg empty]
    rcases ensureWriteCap_spec inv.isCap (f.pos + data.length) fresh with
      ⟨small, f', run, grown⟩ | ⟨large, run⟩
    · refine .inr ⟨empty, small, f', grown, ?_⟩
      rw [run]
      dsimp only
      rw [grown.same.1, grown.same.2.1]
    · rw [run]
      exact .inl ⟨.inr large, rfl⟩

/-- Everything `fseek` can do. -/
theorem fseek_cases {f : Stream} (inv : f.Inv) (off : BitVec 64) (whence : Whence)
    (fresh : Bytes) :
    ((∀ base, whence.base f.pos f.len = some base →
        (base : Int) + off.toInt < 0 ∨ (maxCap : Int) < base + off.toInt) ∧
      fseek f off whence fresh = f) ∨
    (∃ base : Nat, whence.base f.pos f.len = some base ∧ 0 ≤ (base : Int) + off.toInt ∧
      (base : Int) + off.toInt ≤ maxCap ∧
      ∃ f', Grown f f' ((base : Int) + off.toInt).toNat fresh ∧
        fseek f off whence fresh = { f' with pos := ((base : Int) + off.toInt).toNat }) := by
  rw [fseek]
  cases eq : whence.base f.pos f.len with
  | none =>
      refine .inl ⟨?_, rfl⟩
      intro base h
      cases h
  | some base =>
      have limit := inv.isCap.le
      have low : base ≤ maxCap := by
        have lenLe := inv.lenLe
        have posLe := inv.posLe
        cases whence <;> simp only [Whence.base, Option.some.injEq, reduceCtorEq] at eq <;> omega
      have least := BitVec.le_toInt off
      have most := BitVec.toInt_lt (x := off)
      have small : maxCap = 16777216 := rfl
      have value : ((base : Int) + off.toInt).bmod (2 ^ 64) = base + off.toInt ∨
          ((2 ^ 63 : Int) ≤ base + off.toInt ∧ ((base : Int) + off.toInt).bmod (2 ^ 64) < 0) := by
        dsimp only [Int.bmod]
        split_ifs <;> omega
      dsimp only
      by_cases neg : ((base : Int) + off.toInt).bmod (2 ^ 64) < 0
      · rw [if_pos neg]
        refine .inl ⟨fun base' h => ?_, rfl⟩
        cases h
        rcases value with value | ⟨large, -⟩ <;> omega
      · have same := value.resolve_right fun h => neg h.2
        rw [if_neg neg, same]
        rcases ensureWriteCap_spec inv.isCap ((base : Int) + off.toInt).toNat fresh with
          ⟨fits, f', run, grown⟩ | ⟨large, run⟩
        · rw [run]
          exact .inr ⟨base, rfl, by omega, by omega, f', grown, rfl⟩
        · rw [run]
          refine .inl ⟨fun base' h => ?_, rfl⟩
          cases h
          omega

/-- Characters of a file are only counted. -/
theorem vfprintf_fst (f : Stream) (fmt : CString) (va : Nat → Arg) :
    (vfprintf f fmt va).1 = f := by
  have count : ∀ (out : CString) (x : Stream × Int), (out.foldl fileOutChar x).1 = x.1 := by
    intro out
    induction out with
    | nil => exact fun x => rfl
    | cons c out ih => exact fun x => ih _
  rw [vfprintf, formatTo_eq, count]

/-- Bytes put where the file has bytes up to the position. -/
theorem overwrite_inside {bytes data : List UInt8} {pos : Nat} (le : pos ≤ bytes.length) :
    overwrite bytes pos data = bytes.take pos ++ data ++ bytes.drop (pos + data.length) := by
  rw [overwrite, Nat.sub_eq_zero_of_le le]
  simp

theorem slice_getD (data : List UInt8) (q : Bytes) (o : Nat) :
    slice (splice q o data.length fun i => data.getD i 0) o data.length = data :=
  slice_eq_list fun _ lt => splice_of_mem lt

/-- What is written inside the file is what should be. -/
theorem agrees_write {f f' : Stream} {a : Content} {data : List UInt8} {fresh : Bytes}
    (inv : f.Inv) (agrees : Agrees f a) (grown : Grown f f' (f.pos + data.length) fresh)
    (inside : f.pos ≤ f.len) :
    slice (splice f'.buf f.pos data.length fun i => data.getD i 0) 0
      (max f.len (f.pos + data.length)) = overwrite a.bytes a.pos data := by
  have lenLe := inv.lenLe
  have same : ∀ i, i < f.len → f'.buf i = f.buf i := fun i lt => grown.kept i (by omega)
  have front : slice (splice f'.buf f.pos data.length fun i => data.getD i 0) 0 f.pos =
      a.bytes.take f.pos := by
    rw [← agrees.1, slice_take inside]
    refine slice_congr fun i lt => ?_
    rw [splice_of_apart (by omega)]
    exact same _ (by omega)
  have back : slice (splice f'.buf f.pos data.length fun i => data.getD i 0)
      (f.pos + data.length) (max f.len (f.pos + data.length) - (f.pos + data.length)) =
      a.bytes.drop (f.pos + data.length) := by
    rw [← agrees.1, slice_drop, Nat.zero_add]
    have length : max f.len (f.pos + data.length) - (f.pos + data.length) =
        f.len - (f.pos + data.length) := by omega
    rw [length]
    refine slice_congr fun i lt => ?_
    rw [splice_of_apart (by omega)]
    exact same _ (by omega)
  have split : max f.len (f.pos + data.length) = f.pos + data.length +
      (max f.len (f.pos + data.length) - (f.pos + data.length)) := by omega
  rw [split, slice_add, slice_add, Nat.zero_add, Nat.zero_add, front, slice_getD, back,
    ← agrees.2, overwrite_inside (by rw [← agrees.length]; exact inside)]

theorem Stream.Inv.write {f f' : Stream} {data : List UInt8} {fresh : Bytes} (inv : f.Inv)
    (grown : Grown f f' (f.pos + data.length) fresh) (buf : Bytes) :
    Stream.Inv ⟨f.pos + data.length, max f.len (f.pos + data.length), f'.cap, true, buf⟩ := by
  have lenLe := inv.lenLe
  have more := grown.more
  have room := grown.room
  exact ⟨grown.isCap, by dsimp only; omega, room, rfl⟩

/-- Every call keeps what is true of a stream. -/
theorem Stream.Inv.step {f : Stream} (inv : f.Inv) (call : Call) (fresh : Bytes) :
    (f.step call fresh).Inv := by
  have write : ∀ data, (NTux.Libc.fwrite f data fresh).Inv := by
    intro data
    rcases fwrite_cases inv data fresh with ⟨-, eq⟩ | ⟨-, -, f', grown, eq⟩
    · rw [eq]
      exact inv
    · rw [eq]
      exact inv.write grown _
  cases call with
  | fwrite data => exact write data
  | fputs s => exact write s
  | fprintf fmt va =>
      rw [Stream.step, vfprintf_fst]
      exact inv
  | fseek off whence =>
      rw [Stream.step]
      rcases fseek_cases inv off whence fresh with ⟨-, eq⟩ | ⟨base, -, -, -, f', grown, eq⟩
      · rw [eq]
        exact inv
      · rw [eq]
        have lenLe := inv.lenLe
        have more := grown.more
        obtain ⟨-, len, dirty⟩ := grown.same
        exact ⟨grown.isCap, by dsimp only; omega, grown.room, by rw [dirty]; exact inv.dirty⟩
  | ftell => exact inv

/-! ## Calls -/

theorem agrees_seek {f : Stream} {a : Content} (inv : f.Inv) (agrees : Agrees f a)
    (off : BitVec 64) (whence : Whence) (fresh : Bytes) :
    Agrees (NTux.Libc.fseek f off whence fresh) (a.seek off.toInt whence) := by
  have base : whence.base f.pos f.len = whence.base a.pos a.bytes.length := by
    rw [agrees.2, agrees.length]
  rw [Content.seek, ← base]
  rcases fseek_cases inv off whence fresh with ⟨refused, eq⟩ | ⟨b, byte, nonneg, le, f', grown, eq⟩
  · rw [eq]
    cases byte : whence.base f.pos f.len with
    | none => exact agrees
    | some b =>
        dsimp only
        rw [if_pos (refused b byte)]
        exact agrees
  · rw [eq, byte]
    dsimp only
    rw [if_neg (by omega)]
    refine ⟨?_, rfl⟩
    dsimp only
    rw [grown.same.2.1, ← agrees.1]
    have lenLe := inv.lenLe
    exact slice_congr fun i lt => grown.kept _ (by omega)

/-- A plain call does to the stream what it should do to the file. -/
theorem agrees_step {f : Stream} {a : Content} (inv : f.Inv) (agrees : Agrees f a) {call : Call}
    (plain : a.Plain call) (fresh : Bytes) : Agrees (f.step call fresh) (a.step call) := by
  have write : ∀ data, (data = [] ∨ maxCap < a.pos + data.length ∨ a.pos ≤ a.bytes.length) →
      Agrees (NTux.Libc.fwrite f data fresh) (a.write data) := by
    intro data fine
    rw [Content.write]
    rcases fwrite_cases inv data fresh with ⟨refused, eq⟩ | ⟨some, fits, f', grown, eq⟩
    · rw [agrees.2] at refused
      rw [eq, if_pos refused]
      exact agrees
    · rw [agrees.2] at fits
      have inside : f.pos ≤ f.len := by
        rw [agrees.2, agrees.length]
        exact (fine.resolve_left some).resolve_left (by omega)
      rw [eq, if_neg (by rw [not_or]; exact ⟨some, by omega⟩)]
      exact ⟨agrees_write inv agrees grown inside, by dsimp only; rw [agrees.2]⟩
  cases call with
  | fwrite data => exact write data (plain.imp_right (Or.imp_right And.right))
  | fputs s => exact write s (plain.imp_right (Or.imp_right And.right))
  | fprintf fmt va =>
      have nothing : formatted fmt va = [] ∨ maxCap < a.pos + (formatted fmt va).length :=
        plain.imp_right fun h => h.resolve_right fun other => other.1 fmt va rfl
      rw [Stream.step, vfprintf_fst]
      change Agrees f (a.write (formatted fmt va))
      rw [Content.write, if_pos nothing]
      exact agrees
  | fseek off whence => exact agrees_seek inv agrees off whence fresh
  | ftell =>
      change Agrees f (a.write [])
      rw [Content.write, if_pos (.inl rfl)]
      exact agrees

/-- Behind the end of the file the buffer is filled with ones. -/
def Ones (f : Stream) : Prop := ∀ i, f.len ≤ i → i < f.cap → f.buf i = 1

theorem Grown.ones {f f' : Stream} {need : Nat} (grown : Grown f f' need fun _ => 1)
    (ones : Ones f) {i : Nat} (le : f.len ≤ i) (lt : i < f'.cap) : f'.buf i = 1 := by
  by_cases old : i < f.cap
  · rw [grown.kept i old]
    exact ones i le old
  · exact grown.added i (by omega) lt

theorem ones_step {f : Stream} (inv : f.Inv) (ones : Ones f) (call : Call) :
    Ones (f.step call fun _ => 1) := by
  have write : ∀ data, Ones (NTux.Libc.fwrite f data fun _ => 1) := by
    intro data
    rcases fwrite_cases inv data fun _ => 1 with ⟨-, eq⟩ | ⟨-, -, f', grown, eq⟩
    · rw [eq]
      exact ones
    · rw [eq]
      intro i le lt
      dsimp only at le lt ⊢
      rw [splice_of_apart (by omega)]
      exact grown.ones ones (by omega) lt
  cases call with
  | fwrite data => exact write data
  | fputs s => exact write s
  | fprintf fmt va =>
      rw [Stream.step, vfprintf_fst]
      exact ones
  | fseek off whence =>
      rw [Stream.step]
      rcases fseek_cases inv off whence fun _ => 1 with ⟨-, eq⟩ | ⟨base, -, -, -, f', grown, eq⟩
      · rw [eq]
        exact ones
      · rw [eq]
        intro i le lt
        dsimp only at le lt ⊢
        rw [grown.same.2.1] at le
        exact grown.ones ones le lt
  | ftell => exact ones

/-- A call that is not plain shows: `fprintf` leaves the position where it is, and what is
found in memory is in the gap. -/
theorem not_agrees_step {f : Stream} {a : Content} (inv : f.Inv) (agrees : Agrees f a)
    (ones : Ones f) {call : Call} (bad : ¬a.Plain call) :
    ¬Agrees (f.step call fun _ => 1) (a.step call) := by
  rw [Content.Plain, not_or, not_or] at bad
  obtain ⟨some, small, rest⟩ := bad
  have written : a.write call.output =
      ⟨overwrite a.bytes a.pos call.output, a.pos + call.output.length⟩ := by
    rw [Content.write, if_neg (by rw [not_or]; exact ⟨some, small⟩)]
  have pos := List.length_pos_of_ne_nil some
  have gap : ∀ data, data = call.output → a.bytes.length < a.pos →
      ¬Agrees (NTux.Libc.fwrite f data fun _ => 1) (a.write call.output) := by
    rintro data rfl far same
    rcases fwrite_cases inv call.output fun _ => 1 with ⟨refused, -⟩ | ⟨-, -, f', grown, eq⟩
    · rw [agrees.2] at refused
      exact refused.elim some small
    · rw [eq, written] at same
      have len := agrees.length
      have position := agrees.2
      have byte := congrArg (fun l : List UInt8 => l[f.len]?) same.1
      have left : (slice (splice f'.buf f.pos call.output.length fun i => call.output.getD i 0) 0
          (max f.len (f.pos + call.output.length)))[f.len]? = Option.some 1 := by
        rw [slice, List.getElem?_map, List.getElem?_range (by omega), Option.map_some,
          Nat.zero_add, splice_of_apart (by omega)]
        have posLe := inv.posLe
        have more := grown.more
        rw [grown.ones ones (Nat.le_refl _) (by omega)]
      have right : (overwrite a.bytes a.pos call.output)[f.len]? = Option.some 0 := by
        rw [overwrite, List.append_assoc, List.getElem?_append_left, List.getElem?_take_of_lt,
          List.getElem?_append_right, List.getElem?_replicate]
        · rw [len, Nat.sub_self, if_pos (by omega)]
        · omega
        · omega
        · rw [List.length_take, List.length_append, List.length_replicate]
          omega
      dsimp only at byte
      rw [left, right] at byte
      exact absurd byte (by decide)
  cases call with
  | fwrite data =>
      refine gap data rfl ?_
      by_contra le
      exact rest ⟨by simp, by omega⟩
  | fputs s =>
      refine gap s rfl ?_
      by_contra le
      exact rest ⟨by simp, by omega⟩
  | fprintf fmt va =>
      intro same
      have eq := same.2
      have position := agrees.2
      rw [Stream.step, vfprintf_fst] at eq
      change f.pos = (a.write (Call.fprintf fmt va).output).pos at eq
      rw [written] at eq
      dsimp only at eq
      omega
  | fseek off whence => exact absurd rfl some
  | ftell => exact absurd rfl some

/-! ## Runs -/

theorem fopen_inv : fopen.Inv := ⟨.inl rfl, Nat.le_refl 0, Nat.le_refl 0, rfl⟩

theorem Stream.Inv.run {f : Stream} (inv : f.Inv) (calls : List MemCall) : (f.run calls).Inv := by
  induction calls generalizing f with
  | nil => exact inv
  | cons c calls ih => exact ih (inv.step c.1 c.2)

/-- Plain calls lead where they should. -/
theorem agrees_run {f : Stream} {a : Content} (inv : f.Inv) (agrees : Agrees f a)
    {calls : List MemCall} (plain : a.PlainRun (calls.map Prod.fst)) {part : List MemCall}
    (pre : part <+: calls) : Agrees (f.run part) (a.run (part.map Prod.fst)) := by
  induction part generalizing f a calls with
  | nil => exact agrees
  | cons c part ih =>
      obtain ⟨rest, rfl⟩ := pre
      exact ih (inv.step c.1 c.2) (agrees_step inv agrees plain.1 c.2) plain.2
        (List.prefix_append part rest)

/-- Calls that lead where they should in memory full of ones are plain. -/
theorem plain_of_agrees {f : Stream} {a : Content} (inv : f.Inv) (agrees : Agrees f a)
    (ones : Ones f) {calls : List Call}
    (all : ∀ part, part <+: calls.map (fun c => ((c, fun _ => 1) : MemCall)) →
      Agrees (f.run part) (a.run (part.map Prod.fst))) : a.PlainRun calls := by
  induction calls generalizing f a with
  | nil => trivial
  | cons c calls ih =>
      have first := all [(c, fun _ => 1)] ⟨calls.map fun c => (c, fun _ => 1), rfl⟩
      have plain : a.Plain c := by
        by_contra bad
        exact not_agrees_step inv agrees ones bad first
      refine ⟨plain, ih (inv.step c _) first (ones_step inv ones c) fun part pre => ?_⟩
      exact all ((c, fun _ => 1) :: part) ((List.prefix_cons_inj _).mpr pre)

/-- The stream shows what it should after each of the calls, whatever is found in memory,
exactly if the calls are plain. -/
theorem stream_faithful_iff (calls : List Call) :
    Faithful calls ↔ (⟨[], 0⟩ : Content).PlainRun calls := by
  have start : Agrees fopen ⟨[], 0⟩ := ⟨rfl, rfl⟩
  constructor
  · intro faithful
    refine plain_of_agrees fopen_inv start (fun i _ lt => absurd lt (Nat.not_lt_zero i))
      fun part pre => ?_
    refine (shows_iff (fopen_inv.run part)).mp (faithful _ ?_ part pre)
    rw [List.map_map]
    exact List.map_id _
  · rintro plain run rfl part pre
    exact (shows_iff (fopen_inv.run part)).mpr (agrees_run fopen_inv start plain pre)

/-- What `fprintf` puts out is not in the file. -/
theorem fprintf_lost : ¬Faithful [.fprintf (text "x") fun _ => ⟨0, none⟩] := by
  intro faithful
  have shows := faithful [(.fprintf (text "x") fun _ => ⟨0, none⟩, fun _ => 0)] rfl _
    List.prefix_rfl
  exact absurd (shows.1 []) (by decide)

end NTux.Libc
