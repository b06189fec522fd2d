import NTux.Libc.Format
import Mathlib.Algebra.Group.Nat.Defs
import Mathlib.Data.FinEnum

/-!
# The disk commands of the terminal

`dd` and `fdisk` of `desktop/terminal.c`, from the argument vector to the requests to the
kernel.  Numbers are read and multiplied in 64 bits and stored in fields of 32 and 8.

* `ddCommand`, `ddCalls`, `fdiskRequest` — the code.
* `DdExact`, `FdiskExact` — what is carried out is what was typed, over the integers.
* `disk_commands_exact_iff` — exactly for the arguments with `DdFits` and `FdiskFits`.
-/

namespace NTux.Desk

open NTux.Fs NTux.Libc

/-! ## Numbers -/

/-- The value of a decimal number, if the text is one. -/
def decimalValue (s : CString) : Option Nat :=
  if s ≠ [] ∧ ∀ c ∈ s, isDigit c = true then
    some (s.foldl (fun v c => v * 10 + (c.toNat - 48)) 0)
  else none

/-- `parse_u64`. -/
def parseU64 (s : CString) : Option Nat :=
  if s ≠ [] ∧ ∀ c ∈ s, isDigit c = true then
    some (s.foldl (fun v c => (v * 10 + (c.toNat - 48)) % 2 ^ 64) 0)
  else none

/-- A hexadecimal digit, as `parse_hex_u64` takes it. -/
def hexDigit (c : UInt8) : Option Nat :=
  if 48 ≤ c ∧ c ≤ 57 then some (c.toNat - 48)
  else if 97 ≤ c ∧ c ≤ 102 then some (10 + (c.toNat - 97))
  else if 65 ≤ c ∧ c ≤ 70 then some (10 + (c.toNat - 65))
  else none

/-- `parse_hex_u64`. -/
def parseHexU64 (s : CString) : Option Nat :=
  let ds := if s.head? = some 48 ∧ (s.tail.head? = some 120 ∨ s.tail.head? = some 88) then s.drop 2
    else s
  if ds = [] then none
  else (ds.mapM hexDigit).map fun vs => vs.foldl (fun v d => v * 16 % 2 ^ 64 + d) 0

/-! ## `dd` -/

/-- `dd_endpoint_t`. -/
inductive Endpoint where
  | block (drive lba : Nat)
  | file (path : CString)
  deriving DecidableEq

/-- `dd_parse_endpoint`, with what reads the numbers and `normalize_path` for the working
directory. -/
def ddParseEndpoint (number : CString → Option Nat) (path : CString → Option CString)
    (spec : CString) : Option Endpoint :=
  if text "blk" <+: spec then
    let rest := spec.drop 3
    let d := rest.takeWhile (· ≠ 58)
    if 58 ∉ rest then none
    else if d.length = 0 ∨ 32 ≤ d.length then none
    else do
      let drive ← number d
      let lba ← number (rest.drop (d.length + 1))
      return .block drive lba
  else (path spec).map .file

/-- The local variables that the arguments are put into. -/
structure DdArgs where
  ifS : Option CString
  ofS : Option CString
  bs : Nat
  count : Nat

/-- One argument. -/
def ddArg (number : CString → Option Nat) (a : DdArgs) (arg : CString) : DdArgs :=
  if text "if=" <+: arg then { a with ifS := some (arg.drop 3) }
  else if text "of=" <+: arg then { a with ofS := some (arg.drop 3) }
  else if text "bs=" <+: arg then { a with bs := (number (arg.drop 3)).getD 0 }
  else if text "count=" <+: arg then { a with count := (number (arg.drop 6)).getD 0 }
  else a

/-- The loop over the arguments. -/
def ddArgs (number : CString → Option Nat) (args : List CString) : DdArgs :=
  args.foldl (ddArg number) ⟨none, none, 1, 1⟩

/-- What the commands find: paths, memory, files and which calls succeed. -/
structure DdWorld (Call : Type) where
  path : CString → Option CString
  malloc : Nat → Bool
  fileLen : CString → Option Nat
  exists_ : CString → Bool
  ok : Call → Bool

/-- A call that moves data between the buffer and a drive or a file. -/
inductive DdCall where
  | blockRead (drive lba sectors : Nat)
  | blockWrite (drive lba sectors : Nat)
  | readFile (path : CString) (bytes : Nat)
  | writeFile (path : CString) (bytes : Nat)
  | createFile (path : CString) (bytes : Nat)
  deriving DecidableEq

/-- What `term_cmd_dd` has before it makes the first call. -/
structure DdCommand where
  src : Endpoint
  dst : Endpoint
  totalSectors : Nat
  totalBytes : Nat
  deriving DecidableEq

/-- `term_cmd_dd` up to the buffer, of `totalBytes` bytes; nothing if it is refused. -/
def ddCommand (w : DdWorld DdCall) (args : List CString) : Option DdCommand :=
  let a := ddArgs parseU64 args
  let totalSectors := a.bs * a.count % 2 ^ 64
  let totalBytes := totalSectors * 512 % 2 ^ 64
  match a.ifS, a.ofS with
  | some ifS, some ofS =>
      if a.bs = 0 ∨ a.count = 0 then none
      else if totalSectors = 0 ∨ totalBytes = 0 ∨ 2 * 1024 * 1024 < totalBytes then none
      else do
        let src ← ddParseEndpoint parseU64 w.path ifS
        let dst ← ddParseEndpoint parseU64 w.path ofS
        if w.malloc totalBytes then some ⟨src, dst, totalSectors, totalBytes⟩ else none
  | _, _ => none

/-- The calls that fill the buffer, and whether they succeed. -/
def ddReads (w : DdWorld DdCall) (c : DdCommand) : List DdCall × Bool :=
  match c.src with
  | .block drive lba =>
      let call := .blockRead drive lba c.totalSectors
      ([call], w.ok call)
  | .file path =>
      if (w.fileLen path).any (c.totalBytes ≤ ·) then
        let call := .readFile path c.totalBytes
        ([call], w.ok call)
      else ([], false)

/-- The call that empties it. -/
def ddWrite (w : DdWorld DdCall) (c : DdCommand) : DdCall :=
  match c.dst with
  | .block drive lba => .blockWrite drive lba c.totalSectors
  | .file path =>
      if w.exists_ path then .writeFile path c.totalBytes else .createFile path c.totalBytes

/-- The rest of `term_cmd_dd`: its calls. -/
def ddCalls (w : DdWorld DdCall) (c : DdCommand) : List DdCall :=
  let r := ddReads w c
  if r.2 then r.1 ++ [ddWrite w c] else r.1

/-! ## `fdisk` -/

/-- `ntux_mbr_part_req_t`. -/
structure MbrPartReq where
  drive : Nat
  partIndex : Nat
  type : Nat
  bootable : Nat
  lbaStart : Nat
  sectors : Nat
  deriving DecidableEq

/-- `term_cmd_fdisk` for the arguments behind the name: the request it makes, if any. -/
def fdiskRequest (args : List CString) : Option MbrPartReq :=
  match args with
  | verb :: d :: p :: rest =>
      if verb = text "delete" then do
        let drive ← parseU64 d
        let part ← parseU64 p
        if part < 1 ∨ 4 < part then none else some ⟨drive % 2 ^ 8, part % 2 ^ 8, 0, 0, 0, 0⟩
      else
        match rest with
        | s :: n :: t :: _ =>
            if verb = text "create" then do
              let drive ← parseU64 d
              let part ← parseU64 p
              let startMb ← parseU64 s
              let sizeMb ← parseU64 n
              let type ← parseHexU64 t
              if part < 1 ∨ 4 < part ∨ 0xFF < type then none
              else some ⟨drive % 2 ^ 8, part % 2 ^ 8, type % 2 ^ 8, 0,
                startMb * 2048 % 2 ^ 64 % 2 ^ 32, sizeMb * 2048 % 2 ^ 64 % 2 ^ 32⟩
            else none
        | _ => none
  | _ => none

/-! ## What is expected -/

/-- A call moves the bytes of `sectors` sectors between its end point and a buffer that is
large enough. -/
def DdCall.Moves (src dst : Endpoint) (sectors buffer : Nat) : DdCall → Prop
  | .blockRead drive lba n => src = .block drive lba ∧ n = sectors ∧ 512 * n ≤ buffer
  | .blockWrite drive lba n => dst = .block drive lba ∧ n = sectors ∧ 512 * n ≤ buffer
  | .readFile path n => src = .file path ∧ n = 512 * sectors ∧ n ≤ buffer
  | .writeFile path n => dst = .file path ∧ n = 512 * sectors ∧ n ≤ buffer
  | .createFile path n => dst = .file path ∧ n = 512 * sectors ∧ n ≤ buffer

/-- A `dd` that is not refused has the end points that were typed, and every call moves
`bs * count` sectors, within a buffer of that size. -/
def DdExact (w : DdWorld DdCall) (args : List CString) : Prop :=
  ∀ c, ddCommand w args = some c →
    ∃ ifS ofS, (ddArgs decimalValue args).ifS = some ifS ∧
      (ddArgs decimalValue args).ofS = some ofS ∧
      ddParseEndpoint decimalValue w.path ifS = some c.src ∧
      ddParseEndpoint decimalValue w.path ofS = some c.dst ∧
      c.totalSectors = (ddArgs decimalValue args).bs * (ddArgs decimalValue args).count ∧
      512 * c.totalSectors ≤ c.totalBytes ∧
      ∀ call ∈ ddCalls w c, call.Moves c.src c.dst
        ((ddArgs decimalValue args).bs * (ddArgs decimalValue args).count) c.totalBytes

/-- The request of `fdisk` has the numbers that were typed. -/
def FdiskExact (args : List CString) : Prop :=
  ∀ req, fdiskRequest args = some req →
    decimalValue (args.getD 1 []) = some req.drive ∧
    decimalValue (args.getD 2 []) = some req.partIndex ∧
    (args.head? = some (text "create") →
      (decimalValue (args.getD 3 [])).map (2048 * ·) = some req.lbaStart ∧
      (decimalValue (args.getD 4 [])).map (2048 * ·) = some req.sectors)

/-- The numbers of an end point are below `2 ^ 64`. -/
def Endpoint.Small : Endpoint → Prop
  | .block drive lba => drive < 2 ^ 64 ∧ lba < 2 ^ 64
  | .file _ => True

/-- Where the size in bytes, reduced modulo `2 ^ 64`, is neither zero nor above 2 MiB, both
end points can be read and there is memory, the size itself and the numbers of the end points
are below `2 ^ 64`. -/
def DdFits (w : DdWorld DdCall) (args : List CString) : Prop :=
  let a := ddArgs decimalValue args
  let bytes := 512 * (a.bs * a.count)
  ∀ ifS ofS src dst, a.ifS = some ifS → a.ofS = some ofS → bytes % 2 ^ 64 ≠ 0 →
    bytes % 2 ^ 64 ≤ 2 * 1024 * 1024 → ddParseEndpoint decimalValue w.path ifS = some src →
    ddParseEndpoint decimalValue w.path ofS = some dst → w.malloc (bytes % 2 ^ 64) = true →
    bytes < 2 ^ 64 ∧ src.Small ∧ dst.Small

/-- A drive and a partition that are taken fit a byte, and the sectors of a partition that is
created fit 32 bits. -/
def FdiskFits (args : List CString) : Prop :=
  ∀ drive part, decimalValue (args.getD 1 []) = some drive →
    decimalValue (args.getD 2 []) = some part → 1 ≤ part % 2 ^ 64 → part % 2 ^ 64 ≤ 4 →
    (args.head? = some (text "delete") → 3 ≤ args.length → drive < 2 ^ 8 ∧ part ≤ 4) ∧
    (args.head? = some (text "create") → 6 ≤ args.length →
      ∀ start size type, decimalValue (args.getD 3 []) = some start →
        decimalValue (args.getD 4 []) = some size →
        parseHexU64 (args.getD 5 []) = some type → type ≤ 0xFF →
        drive < 2 ^ 8 ∧ part ≤ 4 ∧ 2048 * start < 2 ^ 32 ∧ 2048 * size < 2 ^ 32)

/-! ## Numbers modulo `2 ^ 64` -/

theorem foldl_mod (ds : CString) (v : Nat) :
    ds.foldl (fun v c => (v * 10 + (c.toNat - 48)) % 2 ^ 64) (v % 2 ^ 64) =
      ds.foldl (fun v c => v * 10 + (c.toNat - 48)) v % 2 ^ 64 := by
  induction ds generalizing v with
  | nil => rfl
  | cons c ds ih =>
      rw [List.foldl_cons, List.foldl_cons, ← ih]
      congr 1
      omega

/-- `parse_u64` returns the value modulo `2 ^ 64`. -/
theorem parseU64_eq (s : CString) : parseU64 s = (decimalValue s).map (· % 2 ^ 64) := by
  unfold parseU64 decimalValue
  split
  · rw [Option.map_some, ← foldl_mod]
    rfl
  · rfl

/-- The arguments with numbers of 64 bits. -/
def DdArgs.reduced (a : DdArgs) : DdArgs :=
  { a with bs := a.bs % 2 ^ 64, count := a.count % 2 ^ 64 }

/-- The end point with numbers of 64 bits. -/
def Endpoint.reduced : Endpoint → Endpoint
  | .block drive lba => .block (drive % 2 ^ 64) (lba % 2 ^ 64)
  | .file path => .file path

theorem Endpoint.reduced_eq_iff (e : Endpoint) : e.reduced = e ↔ e.Small := by
  cases e with
  | block drive lba =>
      simp only [Endpoint.reduced, Endpoint.Small, Endpoint.block.injEq]
      omega
  | file path => simp [Endpoint.reduced, Endpoint.Small]

theorem getD_map_mod (v : Option Nat) :
    (v.map (· % 2 ^ 64)).getD 0 = v.getD 0 % 2 ^ 64 := by
  cases v <;> rfl

theorem ddArgs_eq (args : List CString) :
    ddArgs parseU64 args = (ddArgs decimalValue args).reduced := by
  have step (a : DdArgs) (arg : CString) :
      ddArg parseU64 a.reduced arg = (ddArg decimalValue a arg).reduced := by
    unfold ddArg
    simp only [parseU64_eq, getD_map_mod]
    split_ifs <;> simp [DdArgs.reduced]
  have run (a : DdArgs) :
      args.foldl (ddArg parseU64) a.reduced = (args.foldl (ddArg decimalValue) a).reduced := by
    induction args generalizing a with
    | nil => rfl
    | cons arg args ih => rw [List.foldl_cons, List.foldl_cons, step, ih]
  exact run ⟨none, none, 1, 1⟩

theorem ddParseEndpoint_eq (path : CString → Option CString) (spec : CString) :
    ddParseEndpoint parseU64 path spec =
      (ddParseEndpoint decimalValue path spec).map Endpoint.reduced := by
  unfold ddParseEndpoint
  split
  · dsimp only
    split
    · rfl
    · split
      · rfl
      · generalize (spec.drop 3).drop (((spec.drop 3).takeWhile (· ≠ 58)).length + 1) = behind
        generalize (spec.drop 3).takeWhile (· ≠ 58) = d
        rw [parseU64_eq, parseU64_eq]
        cases decimalValue d with
        | none => rfl
        | some drive => cases decimalValue behind <;> rfl
  · cases path spec <;> rfl

/-! ## `dd` over the integers -/

/-- A value that is read, changed and used. -/
theorem bind_map_eq_some_iff {α β γ : Type} {o : Option α} {f : α → β} {g : β → Option γ} {c : γ} :
    (o.map f >>= g) = some c ↔ ∃ v, o = some v ∧ g (f v) = some c := by
  rw [Option.bind_eq_bind, Option.bind_map, Option.bind_eq_some_iff]
  rfl

variable {w : DdWorld DdCall} {args : List CString} {c : DdCommand}

/-- The command that is not refused, in the numbers that were typed. -/
theorem ddCommand_eq_some_iff : ddCommand w args = some c ↔
    ∃ ifS ofS src dst, (ddArgs decimalValue args).ifS = some ifS ∧
      (ddArgs decimalValue args).ofS = some ofS ∧
      512 * ((ddArgs decimalValue args).bs * (ddArgs decimalValue args).count) % 2 ^ 64 ≠ 0 ∧
      512 * ((ddArgs decimalValue args).bs * (ddArgs decimalValue args).count) % 2 ^ 64 ≤
        2 * 1024 * 1024 ∧
      ddParseEndpoint decimalValue w.path ifS = some src ∧
      ddParseEndpoint decimalValue w.path ofS = some dst ∧
      w.malloc (512 * ((ddArgs decimalValue args).bs * (ddArgs decimalValue args).count) % 2 ^ 64) =
        true ∧
      c = ⟨src.reduced, dst.reduced,
        (ddArgs decimalValue args).bs * (ddArgs decimalValue args).count % 2 ^ 64,
        512 * ((ddArgs decimalValue args).bs * (ddArgs decimalValue args).count) % 2 ^ 64⟩ := by
  unfold ddCommand
  rw [ddArgs_eq]
  generalize ddArgs decimalValue args = a
  have sectors : a.reduced.bs * a.reduced.count % 2 ^ 64 = a.bs * a.count % 2 ^ 64 :=
    (Nat.mul_mod a.bs a.count (2 ^ 64)).symm
  have bytes : a.bs * a.count % 2 ^ 64 * 512 % 2 ^ 64 = 512 * (a.bs * a.count) % 2 ^ 64 := by
    rw [Nat.mod_mul_mod, Nat.mul_comm]
  have sameIf : a.reduced.ifS = a.ifS := rfl
  have sameOf : a.reduced.ofS = a.ofS := rfl
  simp only [sectors, bytes, sameIf, sameOf, ddParseEndpoint_eq]
  have total : a.bs * a.count % 2 ^ 64 = 0 → 512 * (a.bs * a.count) % 2 ^ 64 = 0 := by omega
  have bs : a.reduced.bs = 0 → a.bs * a.count % 2 ^ 64 = 0 := by
    intro none_
    rw [← sectors, none_, Nat.zero_mul]
    rfl
  have count : a.reduced.count = 0 → a.bs * a.count % 2 ^ 64 = 0 := by
    intro none_
    rw [← sectors, none_, Nat.mul_zero]
    rfl
  clear sectors bytes
  generalize 512 * (a.bs * a.count) % 2 ^ 64 = bytes at *
  generalize a.bs * a.count % 2 ^ 64 = sectors at *
  cases a.ifS with
  | none => simp
  | some ifS =>
      cases a.ofS with
      | none => simp
      | some ofS =>
          dsimp only
          -- the product is taken modulo `2 ^ 64` before it is compared
          by_cases zero : bytes = 0
          · refine iff_of_false ?_ fun ⟨_, _, _, _, _, _, some_, _⟩ => some_ zero
            by_cases none_ : a.reduced.bs = 0 ∨ a.reduced.count = 0
            · rw [if_pos none_]
              simp
            · rw [if_neg none_, if_pos (.inr (.inl zero))]
              simp
          rw [if_neg fun none_ => zero (total (none_.elim bs count))]
          by_cases large : 2 * 1024 * 1024 < bytes
          · rw [if_pos (.inr (.inr large))]
            refine iff_of_false (by simp) fun ⟨_, _, _, _, _, _, _, small, _⟩ => ?_
            exact absurd small (Nat.not_le.2 large)
          rw [if_neg fun refused => refused.elim (fun none_ => zero (total none_))
            fun refused => refused.elim zero large]
          constructor
          · intro made
            obtain ⟨src, srcEq, made⟩ := bind_map_eq_some_iff.1 made
            obtain ⟨dst, dstEq, made⟩ := bind_map_eq_some_iff.1 made
            split at made
            next memory =>
              exact ⟨ifS, ofS, src, dst, rfl, rfl, zero, Nat.not_lt.1 large, srcEq, dstEq, memory,
                (Option.some.inj made).symm⟩
            · cases made
          · rintro ⟨_, _, src, dst, ifEq, ofEq, -, -, srcEq, dstEq, memory, rfl⟩
            obtain rfl := Option.some.inj ifEq
            obtain rfl := Option.some.inj ofEq
            rw [srcEq, dstEq]
            simp [memory]

/-- Every call moves what the command says. -/
theorem ddCalls_move {sectors : Nat} (exact_ : c.totalSectors = sectors)
    (bytes : c.totalBytes = 512 * sectors) :
    ∀ call ∈ ddCalls w c, call.Moves c.src c.dst sectors c.totalBytes := by
  have reads : ∀ call ∈ (ddReads w c).1, call.Moves c.src c.dst sectors c.totalBytes := by
    intro call mem
    unfold ddReads at mem
    split at mem
    next drive lba src =>
      rw [List.mem_singleton.1 mem]
      exact ⟨src, exact_, by omega⟩
    next path src =>
      split at mem
      · rw [List.mem_singleton.1 mem]
        exact ⟨src, bytes, le_refl _⟩
      · cases mem
  have write : (ddWrite w c).Moves c.src c.dst sectors c.totalBytes := by
    unfold ddWrite
    split
    next drive lba dst => exact ⟨dst, exact_, by omega⟩
    next path dst =>
      split
      · exact ⟨dst, bytes, le_refl _⟩
      · exact ⟨dst, bytes, le_refl _⟩
  intro call mem
  unfold ddCalls at mem
  dsimp only at mem
  split at mem
  · rcases List.mem_append.1 mem with mem | mem
    · exact reads call mem
    · rw [List.mem_singleton.1 mem]
      exact write
  · exact reads call mem

theorem ddExact_iff (w : DdWorld DdCall) (args : List CString) :
    DdExact w args ↔ DdFits w args := by
  constructor
  · intro exact_ ifS ofS src dst ifEq ofEq some_ most srcEq dstEq memory
    obtain ⟨ifS', ofS', ifEq', ofEq', srcEq', dstEq', sectors, room, -⟩ := exact_ _
      (ddCommand_eq_some_iff.2 ⟨ifS, ofS, src, dst, ifEq, ofEq, some_, most, srcEq, dstEq, memory,
        rfl⟩)
    rw [ifEq] at ifEq'
    rw [ofEq] at ofEq'
    obtain rfl := Option.some.inj ifEq'
    obtain rfl := Option.some.inj ofEq'
    rw [srcEq] at srcEq'
    rw [dstEq] at dstEq'
    dsimp only at sectors room srcEq' dstEq'
    refine ⟨?_, src.reduced_eq_iff.1 (Option.some.inj srcEq').symm,
      dst.reduced_eq_iff.1 (Option.some.inj dstEq').symm⟩
    rw [sectors] at room
    exact lt_of_le_of_lt room (Nat.mod_lt _ (by decide))
  · intro fits c made
    obtain ⟨ifS, ofS, src, dst, ifEq, ofEq, some_, most, srcEq, dstEq, memory, rfl⟩ :=
      ddCommand_eq_some_iff.1 made
    obtain ⟨small, srcSmall, dstSmall⟩ :=
      fits ifS ofS src dst ifEq ofEq some_ most srcEq dstEq memory
    generalize ddArgs decimalValue args = a at *
    have bytes : 512 * (a.bs * a.count) % 2 ^ 64 = 512 * (a.bs * a.count) := Nat.mod_eq_of_lt small
    have sectors : a.bs * a.count % 2 ^ 64 = a.bs * a.count := Nat.mod_eq_of_lt (by omega)
    rw [← src.reduced_eq_iff] at srcSmall
    rw [← dst.reduced_eq_iff] at dstSmall
    exact ⟨ifS, ofS, ifEq, ofEq, by rw [srcEq, srcSmall], by rw [dstEq, dstSmall], sectors,
      by dsimp only; omega, ddCalls_move sectors bytes⟩

/-! ## `fdisk` over the integers -/

theorem delete_ne_create : text "delete" ≠ text "create" := by decide

theorem fdiskRequest_delete {d p : CString} {rest : List CString} {req : MbrPartReq} :
    fdiskRequest (text "delete" :: d :: p :: rest) = some req ↔
      ∃ drive part, decimalValue d = some drive ∧ decimalValue p = some part ∧
        1 ≤ part % 2 ^ 64 ∧ part % 2 ^ 64 ≤ 4 ∧
        req = ⟨drive % 2 ^ 64 % 2 ^ 8, part % 2 ^ 64 % 2 ^ 8, 0, 0, 0, 0⟩ := by
  unfold fdiskRequest
  dsimp only
  rw [if_pos rfl, parseU64_eq, parseU64_eq]
  constructor
  · intro made
    obtain ⟨drive, driveEq, made⟩ := bind_map_eq_some_iff.1 made
    obtain ⟨part, partEq, made⟩ := bind_map_eq_some_iff.1 made
    split at made
    · cases made
    next inside =>
      rw [not_or, Nat.not_lt, Nat.not_lt] at inside
      exact ⟨drive, part, driveEq, partEq, inside.1, inside.2, (Option.some.inj made).symm⟩
  · rintro ⟨drive, part, driveEq, partEq, low, high, rfl⟩
    rw [driveEq, partEq]
    exact if_neg (not_or.2 ⟨Nat.not_lt.2 low, Nat.not_lt.2 high⟩)

theorem fdiskRequest_create {d p s n t : CString} {rest : List CString} {req : MbrPartReq} :
    fdiskRequest (text "create" :: d :: p :: s :: n :: t :: rest) = some req ↔
      ∃ drive part start size type, decimalValue d = some drive ∧ decimalValue p = some part ∧
        decimalValue s = some start ∧ decimalValue n = some size ∧ parseHexU64 t = some type ∧
        1 ≤ part % 2 ^ 64 ∧ part % 2 ^ 64 ≤ 4 ∧ type ≤ 0xFF ∧
        req = ⟨drive % 2 ^ 64 % 2 ^ 8, part % 2 ^ 64 % 2 ^ 8, type % 2 ^ 8, 0,
          start % 2 ^ 64 * 2048 % 2 ^ 64 % 2 ^ 32, size % 2 ^ 64 * 2048 % 2 ^ 64 % 2 ^ 32⟩ := by
  unfold fdiskRequest
  dsimp only
  rw [if_neg delete_ne_create.symm, if_pos rfl, parseU64_eq, parseU64_eq, parseU64_eq, parseU64_eq]
  constructor
  · intro made
    obtain ⟨drive, driveEq, made⟩ := bind_map_eq_some_iff.1 made
    obtain ⟨part, partEq, made⟩ := bind_map_eq_some_iff.1 made
    obtain ⟨start, startEq, made⟩ := bind_map_eq_some_iff.1 made
    obtain ⟨size, sizeEq, made⟩ := bind_map_eq_some_iff.1 made
    obtain ⟨type, typeEq, made⟩ := Option.bind_eq_some_iff.1 made
    split at made
    · cases made
    next inside =>
      rw [not_or, not_or, Nat.not_lt, Nat.not_lt, Nat.not_lt] at inside
      exact ⟨drive, part, start, size, type, driveEq, partEq, startEq, sizeEq, typeEq, inside.1,
        inside.2.1, inside.2.2, (Option.some.inj made).symm⟩
  · rintro ⟨drive, part, start, size, type, driveEq, partEq, startEq, sizeEq, typeEq, low, high,
      fits, rfl⟩
    rw [driveEq, partEq, startEq, sizeEq, typeEq]
    exact if_neg (not_or.2 ⟨Nat.not_lt.2 low, not_or.2 ⟨Nat.not_lt.2 high, Nat.not_lt.2 fits⟩⟩)

/-- No other arguments lead to a request. -/
theorem fdiskRequest_cases {args : List CString} {req : MbrPartReq}
    (made : fdiskRequest args = some req) :
    (∃ d p rest, args = text "delete" :: d :: p :: rest) ∨
      ∃ d p s n t rest, args = text "create" :: d :: p :: s :: n :: t :: rest := by
  unfold fdiskRequest at made
  split at made
  next verb d p rest =>
    split at made
    next delete => exact .inl ⟨d, p, rest, by rw [delete]⟩
    · split at made
      next s n t rest' =>
        split at made
        next create => exact .inr ⟨d, p, s, n, t, rest', by rw [create]⟩
        · cases made
      · cases made
  · cases made

theorem fdiskExact_iff (args : List CString) : FdiskExact args ↔ FdiskFits args := by
  constructor
  · intro exact_ drive part driveEq partEq low high
    constructor
    · intro head len
      obtain ⟨d, p, rest, rfl⟩ : ∃ d p rest, args = text "delete" :: d :: p :: rest := by
        match args, head, len with
        | _ :: d :: p :: rest, head, _ => exact ⟨d, p, rest, by rw [Option.some.inj head]⟩
      obtain ⟨driveIs, partIs, -⟩ := exact_ _
        (fdiskRequest_delete.2 ⟨drive, part, driveEq, partEq, low, high, rfl⟩)
      rw [driveEq, Option.some.injEq] at driveIs
      rw [partEq, Option.some.injEq] at partIs
      dsimp only at driveIs partIs
      omega
    · intro head len start size type startEq sizeEq typeEq fits
      obtain ⟨d, p, s, n, t, rest, rfl⟩ : ∃ d p s n t rest,
          args = text "create" :: d :: p :: s :: n :: t :: rest := by
        match args, head, len with
        | _ :: d :: p :: s :: n :: t :: rest, head, _ =>
            exact ⟨d, p, s, n, t, rest, by rw [Option.some.inj head]⟩
      obtain ⟨driveIs, partIs, created⟩ := exact_ _ (fdiskRequest_create.2
        ⟨drive, part, start, size, type, driveEq, partEq, startEq, sizeEq, typeEq, low, high, fits,
          rfl⟩)
      obtain ⟨startIs, sizeIs⟩ := created rfl
      rw [driveEq, Option.some.injEq] at driveIs
      rw [partEq, Option.some.injEq] at partIs
      rw [startEq, Option.map_some, Option.some.injEq] at startIs
      rw [sizeEq, Option.map_some, Option.some.injEq] at sizeIs
      dsimp only at driveIs partIs startIs sizeIs
      omega
  · intro fits req made
    rcases fdiskRequest_cases made with ⟨d, p, rest, rfl⟩ | ⟨d, p, s, n, t, rest, rfl⟩
    · obtain ⟨drive, part, driveEq, partEq, low, high, rfl⟩ := fdiskRequest_delete.1 made
      obtain ⟨driveLt, partLe⟩ := (fits drive part driveEq partEq low high).1 rfl (by simp)
      refine ⟨driveEq.trans (congrArg some ?_), partEq.trans (congrArg some ?_), fun head => ?_⟩
      · dsimp only
        omega
      · dsimp only
        omega
      · exact absurd (Option.some.inj head) delete_ne_create
    · obtain ⟨drive, part, start, size, type, driveEq, partEq, startEq, sizeEq, typeEq, low, high,
        small, rfl⟩ := fdiskRequest_create.1 made
      obtain ⟨driveLt, partLe, startLt, sizeLt⟩ := (fits drive part driveEq partEq low high).2 rfl
        (by simp) start size type startEq sizeEq typeEq small
      refine ⟨driveEq.trans (congrArg some ?_), partEq.trans (congrArg some ?_), fun _ =>
        ⟨(congrArg (Option.map (2048 * ·)) startEq).trans (congrArg some ?_),
          (congrArg (Option.map (2048 * ·)) sizeEq).trans (congrArg some ?_)⟩⟩
      all_goals
        dsimp only
        omega

/-- For all arguments, and whatever the commands find: what is carried out is what was typed
exactly if the numbers fit. -/
theorem disk_commands_exact_iff (w : DdWorld DdCall) (args : List CString) :
    (DdExact w args ↔ DdFits w args) ∧ (FdiskExact args ↔ FdiskFits args) :=
  ⟨ddExact_iff w args, fdiskExact_iff args⟩

set_option maxRecDepth 8192 in
/-- A start of `2 ^ 21` MiB becomes the sector 0. -/
theorem start_wraps :
    ¬ ∀ (w : DdWorld DdCall) (args : List CString), DdExact w args ∧ FdiskExact args := by
  intro exact_
  have fits := (fdiskExact_iff _).1 (exact_ ⟨some, fun _ => true, fun _ => none, fun _ => true,
    fun _ => true⟩
    [text "create", text "0", text "1", text "2097152", text "1", text "83"]).2
  have small := ((fits 0 1 (by decide) (by decide) (by decide) (by decide)).2 rfl (by decide)
    2097152 1 131 (by decide) (by decide) (by decide) (by decide)).2.2.1
  exact absurd small (by decide)

end NTux.Desk
