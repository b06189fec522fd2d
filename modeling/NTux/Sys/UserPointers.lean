import NTux.Lib.Touches
import Mathlib.Algebra.Group.Nat.Defs
import Mathlib.Algebra.Group.Int.Defs

/-!
# Pointers from user programs

What a system call does with the memory its arguments point to: the two checks of `int80.c`
(`user_ptr_range_ok`, `user_cstr_ok`), the descriptors of `fd.c` with the devices behind them,
and the log of the address ranges that a handler reads or writes (`Span`).

The filesystems, the drivers and the network below the handlers enter through what they use of
a string or a buffer they are handed: of a string nothing behind its terminator, of a buffer
nothing behind the length that comes with it (`Machine`).
-/

namespace NTux.Sys.UserMem

open NTux.Lib NTux.Lib.Touching

/-! ## Memory -/

/-- A range of addresses. -/
structure Span where
  addr : Nat
  len : Nat
  deriving DecidableEq

/-- Every byte of the span lies in `[lo, hi)`. -/
def Span.Inside (lo hi : Nat) (s : Span) : Prop := ∀ i < s.len, lo ≤ s.addr + i ∧ s.addr + i < hi

theorem inside_iff {lo hi : Nat} {s : Span} :
    s.Inside lo hi ↔ s.len = 0 ∨ (lo ≤ s.addr ∧ s.addr + s.len ≤ hi) := by
  constructor
  · intro inside
    by_cases empty : s.len = 0
    · exact .inl empty
    · have first := inside 0 (by omega)
      have last := inside (s.len - 1) (by omega)
      exact .inr (by omega)
  · rintro (empty | bounds) i lt
    · omega
    · omega

/-- The number of bytes before the terminator, of at most `n`. -/
def strnlen (mem : Nat → UInt8) (p : Nat) : Nat → Nat
  | 0 => 0
  | n + 1 => if mem p = 0 then 0 else strnlen mem (p + 1) n + 1

/-- `strlen`, in an address space of 64 bits. -/
def strlen (mem : Nat → UInt8) (p : Nat) : Nat := strnlen mem p (2 ^ 64 - p)

/-- The bytes of a string with its terminator. -/
def cstrBytes (mem : Nat → UInt8) (p : Nat) : Nat := min (strlen mem p + 1) (2 ^ 64 - p)

/-- A terminator that is found is found by every longer search. -/
theorem strnlen_of_lt {mem : Nat → UInt8} {p n k : Nat} (found : strnlen mem p n < n) (le : n ≤ k) :
    strnlen mem p k = strnlen mem p n := by
  induction n generalizing p k with
  | zero => exact absurd found (Nat.not_lt_zero _)
  | succ n ih =>
      obtain ⟨k, rfl⟩ : ∃ j, k = j + 1 := ⟨k - 1, by omega⟩
      unfold strnlen at found ⊢
      split
      next => rfl
      next more =>
        rw [if_neg more] at found
        rw [ih (by omega) (by omega)]

/-! ## The machine -/

/-- The functions below the handlers that use what a program points to. -/
inductive Callee
  | moduleLoaderStartElf | moduleLoaderStartModule | moduleLoaderList
  | vfsChmod | vfsChown | vfsGetattr | vfsReadFile
  | sysAuthUser | sysUserGetByName | sysUserGetByUid | sysGroupGetByName | sysGroupGetByGid
  | fsExists | fsMkdir | fsCreateFile | fsWriteFile | fsReadFile | fsListDir | fsRemove
  | fsRename | fsCopyFileFast | fsGetBlockDevices | fsListPartitions | fsBlockRead | fsBlockWrite
  | keyboardSetLayout | cmosReadTime | strncmp | fdOpenFile | ttyRead
  | parseIpv4 | networkDnsLookup | networkIcmpSinglePing | networkTcpSend | networkTcpRecv
  | networkTcpRecvNb | networkDebug | httpPost | infoGetCpuBrand
  | deskapiPop | deskapiPush | deskapiDialogPop | audioPlay
  deriving DecidableEq

/-- The devices of `/dev`. -/
inductive Device
  | null | zero | input | tty
  deriving DecidableEq

/-- `fd_kind_t`. -/
inductive FdKind
  | none | file | dev (d : Device)
  deriving DecidableEq

/-- `fd_entry_t`, as far as it says which bytes a call moves. -/
structure FdEntry where
  used : Bool
  kind : FdKind
  flags : UInt32
  pos : Nat
  fileLen : Nat

/-- The thread that makes the call. -/
structure Caller where
  userVstart : UInt64
  userVend : UInt64
  ngroups : Int
  fds : Nat → FdEntry

/-- `limine_framebuffer`, without its address. -/
structure Framebuffer where
  width : Nat
  height : Nat
  bpp : Nat
  memoryModel : Nat
  redMaskSize : Nat
  redMaskShift : Nat
  greenMaskSize : Nat
  greenMaskShift : Nat
  blueMaskSize : Nat
  blueMaskShift : Nat

/-- How an HTTP request ends: at a page that would need TLS, without a response that can be used,
or with a body. -/
inductive HttpOutcome
  | https
  | failed
  | body (len : Nat)

/-- The kernel a call meets.  `kmalloc` says whether it has memory for buffers of its own;
`answer` is the number that a callee comes back with in this call (a length, a count), `none`
where it fails; `textUsed` and `bufUsed` are the bytes it uses of the string or the buffer at an
address. -/
structure Machine where
  mem : Nat → UInt8
  caller : Option Caller
  tasks : Nat
  events : Nat
  framebuffer : Option Framebuffer
  kmalloc : Bool
  http : HttpOutcome
  answer : Callee → Option Nat
  textUsed : Callee → Nat → Nat
  bufUsed : Callee → Nat → Nat → Nat
  textUsed_le : ∀ c p, textUsed c p ≤ cstrBytes mem p
  bufUsed_le : ∀ c p n, bufUsed c p n ≤ n

/-- A handler. -/
abbrev Handler := Touching Span Unit

variable (m : Machine)

/-- A callee uses the string at `p`. -/
def text (c : Callee) (p : Nat) : Handler := touch ⟨p, m.textUsed c p⟩

/-- A callee uses the buffer of `n` bytes at `p`. -/
def buffer (c : Callee) (p n : Nat) : Handler := touch ⟨p, m.bufUsed c p n⟩

/-! ## The checks -/

/-- `mul_overflow_size`: the product, unless it overflows. -/
def mulOverflowSize (a b : Nat) : Option Nat := if a * b < 2 ^ 64 then some (a * b) else none

/-- `current_user_range`, where a range is enforced. -/
def currentUserRange : Option (Nat × Nat) :=
  match m.caller with
  | none => none
  | some t =>
      if t.userVstart = 0 ∨ t.userVend ≤ t.userVstart then none
      else some (t.userVstart.toNat, t.userVend.toNat)

/-- `user_ptr_range_ok`. -/
def userPtrRangeOk (p len : Nat) : Bool :=
  if len = 0 then true
  else if p = 0 then false
  else
    let last := (p + (len - 1)) % 2 ^ 64
    if last < p then false
    else
      match currentUserRange m with
      | none => true
      | some (start, stop) => start ≤ p ∧ last < stop

/-- The pointer lies where `user_cstr_ok` starts to read. -/
def cstrStart (s maxScan : Nat) : Bool :=
  match currentUserRange m with
  | none => s ≠ 0 ∧ maxScan ≠ 0
  | some (start, stop) => s ≠ 0 ∧ maxScan ≠ 0 ∧ start ≤ s ∧ s < stop

/-- The number of bytes `user_cstr_ok` reads at most. -/
def cstrLimit (s maxScan : Nat) : Nat :=
  match currentUserRange m with
  | none => maxScan
  | some (_, stop) => min maxScan (stop - s)

/-- `user_cstr_ok`. -/
def userCstrOk (s maxScan : Nat) : Bool :=
  cstrStart m s maxScan ∧ strnlen m.mem s (cstrLimit m s maxScan) < cstrLimit m s maxScan

/-- The bytes that `user_cstr_ok` itself reads. -/
def cstrScan (s maxScan : Nat) : List Span :=
  if cstrStart m s maxScan then
    [⟨s, min (strnlen m.mem s (cstrLimit m s maxScan) + 1) (cstrLimit m s maxScan)⟩]
  else []

/-- A handler goes on only where `user_cstr_ok` accepts the string. -/
def checkCstr (s maxScan : Nat) : Handler := do
  touchAll (cstrScan m s maxScan)
  check (userCstrOk m s maxScan)

/-- A handler goes on only where `user_ptr_range_ok` accepts the range. -/
def checkRange (p len : Nat) : Handler := check (userPtrRangeOk m p len)

/-! ### What the checks say -/

variable {m} {lo hi : Nat}

theorem range_lt (restricted : currentUserRange m = some (lo, hi)) : 0 < lo ∧ lo < hi ∧ hi < 2 ^ 64 := by
  unfold currentUserRange at restricted
  split at restricted
  next => cases restricted
  next t _ =>
    split at restricted
    next => cases restricted
    next enforced =>
      rw [not_or, UInt64.le_iff_toNat_le, Nat.not_le] at enforced
      cases restricted
      refine ⟨Nat.pos_of_ne_zero fun zero => enforced.1 ?_, enforced.2, t.userVend.toNat_lt⟩
      exact UInt64.toNat_inj.1 zero

/-- For a thread with a range, `user_ptr_range_ok` accepts exactly the ranges inside. -/
theorem userPtrRangeOk_iff (restricted : currentUserRange m = some (lo, hi)) {p len : Nat}
    (addr : p < 2 ^ 64) (size : len ≤ 2 ^ 64) :
    userPtrRangeOk m p len = true ↔ Span.Inside lo hi ⟨p, len⟩ := by
  have bounds := range_lt restricted
  rw [inside_iff]
  unfold userPtrRangeOk
  rw [restricted]
  by_cases empty : len = 0
  · simp [empty]
  by_cases null : p = 0
  · rw [if_neg empty, if_pos null]
    simp only [Bool.false_eq_true, false_iff]
    omega
  rw [if_neg empty, if_neg null]
  -- the last byte is the sum, or the sum has wrapped and lies before the first one
  rcases Nat.lt_or_ge (p + (len - 1)) (2 ^ 64) with fits | wraps
  · rw [Nat.mod_eq_of_lt fits]
    simp only [decide_eq_true_eq, if_neg (Nat.not_lt.2 (Nat.le_add_right p (len - 1)))]
    omega
  · have last : (p + (len - 1)) % 2 ^ 64 = p + (len - 1) - 2 ^ 64 := by
      rw [Nat.mod_eq_sub_mod wraps, Nat.mod_eq_of_lt (by omega)]
    rw [last, if_pos (by omega)]
    simp only [Bool.false_eq_true, false_iff]
    omega

/-- A part of a range that was accepted is inside. -/
theorem inside_of_ok (restricted : currentUserRange m = some (lo, hi)) {r : UInt64} {n k : Nat}
    (ok : userPtrRangeOk m r.toNat n = true) (size : n ≤ 2 ^ 64) (le : k ≤ n) :
    Span.Inside lo hi ⟨r.toNat, k⟩ := by
  have whole := (userPtrRangeOk_iff restricted r.toNat_lt size).1 ok
  exact fun i lt => whole i (Nat.lt_of_lt_of_le lt le)

/-- What `user_cstr_ok` reads is inside, whether it accepts the string or not. -/
theorem cstrScan_inside (restricted : currentUserRange m = some (lo, hi)) {s maxScan : Nat} :
    ∀ t ∈ cstrScan m s maxScan, Span.Inside lo hi t := by
  unfold cstrScan cstrStart cstrLimit
  rw [restricted]
  dsimp only
  split
  next starts =>
    intro t mem
    rw [List.mem_singleton] at mem
    simp only [ne_eq, decide_eq_true_eq] at starts
    rw [inside_iff, mem]
    refine .inr ⟨starts.2.2.1, ?_⟩
    have cut := Nat.min_le_right (strnlen m.mem s (min maxScan (hi - s)) + 1) (min maxScan (hi - s))
    have room := Nat.min_le_right maxScan (hi - s)
    show s + min (strnlen m.mem s (min maxScan (hi - s)) + 1) (min maxScan (hi - s)) ≤ hi
    omega
  next => simp

/-- A string that `user_cstr_ok` accepts lies inside, with its terminator. -/
theorem text_inside (restricted : currentUserRange m = some (lo, hi)) {s maxScan k : Nat}
    (ok : userCstrOk m s maxScan = true) (le : k ≤ strlen m.mem s + 1) :
    Span.Inside lo hi ⟨s, k⟩ := by
  have bounds := range_lt restricted
  unfold userCstrOk cstrStart cstrLimit at ok
  rw [restricted] at ok
  simp only [ne_eq, decide_eq_true_eq] at ok
  obtain ⟨⟨_, _, start, stop⟩, found⟩ := ok
  have room := Nat.min_le_right maxScan (hi - s)
  -- the terminator is found before the range ends, so it is the one that everyone finds
  have same : strlen m.mem s = strnlen m.mem s (min maxScan (hi - s)) :=
    strnlen_of_lt found (by omega)
  rw [inside_iff]
  refine .inr ⟨start, ?_⟩
  show s + k ≤ hi
  omega

/-! ## Descriptors -/

variable (m)

/-- `(int)` of a register. -/
def asInt (x : UInt64) : Int :=
  let low : Nat := x.toNat % 2 ^ 32
  if low < 2 ^ 31 then low else low - 2 ^ 32

/-- `(size_t)` of an `int`. -/
def asSize (i : Int) : Nat := (i % 2 ^ 64).toNat

/-- The entry of a descriptor in use; `FD_MAX` is 64. -/
def fdEntry (fd : Int) : Option FdEntry :=
  m.caller.bind fun t =>
    if 0 ≤ fd ∧ fd < 64 ∧ (t.fds fd.toNat).used then some (t.fds fd.toNat) else none

/-- `fd_can_read`. -/
def fdCanRead (e : FdEntry) : Bool := e.flags &&& 3 = 0 ∨ e.flags &&& 3 = 2

/-- `fd_can_write`. -/
def fdCanWrite (e : FdEntry) : Bool := e.flags &&& 3 = 1 ∨ e.flags &&& 3 = 2

/-- The bytes that the `read` of a device stores; an `input_event_t` has 24. -/
def devRead (d : Device) (out len : Nat) : Nat :=
  match d with
  | .null => 0
  | .zero => len
  | .input => min (len / 24) m.events * 24
  | .tty => m.bufUsed .ttyRead out len

/-- The bytes that the `write` of a device reads. -/
def devWrite (d : Device) (len : Nat) : Nat :=
  match d with
  | .tty => len
  | _ => 0

/-- The bytes that `fd_read` stores in its buffer. -/
def fdReadBytes (fd : Int) (out len : Nat) : Nat :=
  match fdEntry m fd with
  | none => 0
  | some e =>
      if out = 0 ∨ !fdCanRead e then 0
      else
        match e.kind with
        | .dev d => devRead m d out len
        | .file => if e.fileLen ≤ e.pos then 0 else min len (e.fileLen - e.pos)
        | .none => 0

/-- The bytes that `fd_write` reads from its buffer. -/
def fdWriteBytes (fd : Int) (src len : Nat) : Nat :=
  match fdEntry m fd with
  | none => 0
  | some e =>
      if src = 0 ∨ !fdCanWrite e then 0
      else
        match e.kind with
        | .dev d => devWrite d len
        | .file => if e.pos ≠ 0 then 0 else m.bufUsed .fsWriteFile src len
        | .none => 0

/-- `fd_read`. -/
def fdRead (fd : Int) (out len : Nat) : Handler := touch ⟨out, fdReadBytes m fd out len⟩

/-- `fd_write`. -/
def fdWrite (fd : Int) (src len : Nat) : Handler := touch ⟨src, fdWriteBytes m fd src len⟩

theorem fdReadBytes_le (fd : Int) (out len : Nat) : fdReadBytes m fd out len ≤ len := by
  unfold fdReadBytes devRead
  have tty := m.bufUsed_le .ttyRead out len
  have events := Nat.div_mul_le_self len 24
  have some_events := Nat.mul_le_mul_right 24 (Nat.min_le_left (len / 24) m.events)
  split
  · exact Nat.zero_le _
  · split
    · exact Nat.zero_le _
    · split
      · split <;> omega
      · split <;> omega
      · exact Nat.zero_le _

theorem fdWriteBytes_le (fd : Int) (src len : Nat) : fdWriteBytes m fd src len ≤ len := by
  unfold fdWriteBytes devWrite
  have file := m.bufUsed_le .fsWriteFile src len
  split
  · exact Nat.zero_le _
  · split
    · exact Nat.zero_le _
    · split
      · split <;> omega
      · split <;> omega
      · exact Nat.zero_le _

/-- The length in a request for the event bits of the input device. -/
def evioLen (req : UInt64) : Nat := req.toNat / 2 ^ 32 % 2 ^ 16

/-- `devfs_input_ioctl`: the bits of the buttons (`BTN_LEFT / 8` and its neighbours) and of the
wheel lie in the bytes 34 and 1. -/
def devfsInputIoctl (req : UInt64) (arg : Nat) : List Span :=
  if req.toNat % 2 ^ 16 = 0x20B1 then
    if evioLen req = 0 then []
    else
      let ev := req.toNat / 2 ^ 16 % 2 ^ 8
      ⟨arg, evioLen req⟩ ::
        if ev = 0 then [⟨arg, 1⟩]
        else if ev = 1 then [⟨arg + 34, 1⟩]
        else if ev = 2 then [⟨arg, 1⟩, ⟨arg + 1, 1⟩]
        else []
  else if req.toNat = 0x81006E06 then [⟨arg, 32⟩]
  else if req.toNat = 0x80084502 then [⟨arg, 8⟩]
  else []

/-- `tty_ioctl`: the terminal settings have 48 bytes, the window size 8. -/
def ttyIoctl (req : UInt64) (arg : Nat) : List Span :=
  if req.toNat = 0x5401 ∨ req.toNat = 0x5402 then [⟨arg, 48⟩]
  else if req.toNat = 0x5413 then [⟨arg, 8⟩]
  else []

/-- The `ioctl` of a device. -/
def devIoctl (d : Device) (req : UInt64) (arg : Nat) : List Span :=
  match d with
  | .input => devfsInputIoctl req arg
  | .tty => ttyIoctl req arg
  | _ => []

/-- `fd_ioctl`: no device touches a null argument. -/
def fdIoctl (fd : Int) (req : UInt64) (arg : Nat) : Handler :=
  match fdEntry m fd with
  | none => pure ()
  | some e =>
      match e.kind with
      | .dev d => if arg = 0 then pure () else touchAll (devIoctl d req arg)
      | _ => pure ()

/-- The bytes from its argument on that the `ioctl` of a device reaches. -/
def devIoctlReach (d : Device) (req : UInt64) : Nat :=
  match d with
  | .input =>
      if req.toNat % 2 ^ 16 = 0x20B1 then
        if evioLen req = 0 then 0
        else if req.toNat / 2 ^ 16 % 2 ^ 8 = 1 then max (evioLen req) 35
        else if req.toNat / 2 ^ 16 % 2 ^ 8 = 2 then max (evioLen req) 2
        else evioLen req
      else if req.toNat = 0x81006E06 then 32
      else if req.toNat = 0x80084502 then 8
      else 0
  | .tty =>
      if req.toNat = 0x5401 ∨ req.toNat = 0x5402 then 48
      else if req.toNat = 0x5413 then 8
      else 0
  | _ => 0

/-- The bytes from its argument on that an `ioctl` on the descriptor reaches. -/
def fdIoctlReach (fd : Int) (req : UInt64) : Nat :=
  match fdEntry m fd with
  | none => 0
  | some e =>
      match e.kind with
      | .dev d => devIoctlReach d req
      | _ => 0

theorem devIoctlReach_le (d : Device) (req : UInt64) : devIoctlReach d req ≤ 2 ^ 16 := by
  have len : evioLen req < 2 ^ 16 := Nat.mod_lt _ (by decide)
  unfold devIoctlReach
  split
  · split
    · split
      · omega
      · split
        · omega
        · split <;> omega
    · split
      · omega
      · split <;> omega
  · split
    · omega
    · split <;> omega
  · omega

/-- Two requests of a device that have one piece of memory each, and no other request. -/
theorem twoRequests_inside_iff {P Q : Prop} [Decidable P] [Decidable Q] {arg n k : Nat} :
    (∀ t ∈ (if P then [⟨arg, n⟩] else if Q then [⟨arg, k⟩] else [] : List Span),
        Span.Inside lo hi t) ↔
      Span.Inside lo hi ⟨arg, if P then n else if Q then k else 0⟩ := by
  split
  next => exact List.forall_mem_singleton
  next =>
    split
    next => exact List.forall_mem_singleton
    next => exact iff_of_true (List.forall_mem_nil _) (inside_iff.2 (.inl rfl))

/-- A request of the input device stays in a range exactly when its reach does. -/
theorem devfsInputIoctl_inside_iff {req : UInt64} {arg : Nat} :
    (∀ t ∈ devfsInputIoctl req arg, Span.Inside lo hi t) ↔
      Span.Inside lo hi ⟨arg, devIoctlReach .input req⟩ := by
  unfold devfsInputIoctl devIoctlReach
  dsimp only
  split
  next =>
    split
    next => exact iff_of_true (List.forall_mem_nil _) (inside_iff.2 (.inl rfl))
    next =>
      -- the bits that are set lie in the bytes that are cleared, or in the bytes 34 and 1
      rw [List.forall_mem_cons]
      by_cases any : req.toNat / 2 ^ 16 % 2 ^ 8 = 0
      · rw [if_pos any, if_neg (by omega), if_neg (by omega), List.forall_mem_singleton]
        simp only [inside_iff]
        omega
      by_cases keys : req.toNat / 2 ^ 16 % 2 ^ 8 = 1
      · rw [if_neg any, if_pos keys, if_pos keys, List.forall_mem_singleton]
        simp only [inside_iff]
        omega
      by_cases wheel : req.toNat / 2 ^ 16 % 2 ^ 8 = 2
      · rw [if_neg any, if_neg keys, if_pos wheel, if_neg keys, if_pos wheel,
          List.forall_mem_cons, List.forall_mem_singleton]
        simp only [inside_iff]
        omega
      · rw [if_neg any, if_neg keys, if_neg wheel, if_neg keys, if_neg wheel]
        exact and_iff_left (List.forall_mem_nil _)
  next => exact twoRequests_inside_iff

/-- The `ioctl` of a device stays in a range exactly when its reach does. -/
theorem devIoctl_inside_iff {d : Device} {req : UInt64} {arg : Nat} :
    (∀ t ∈ devIoctl d req arg, Span.Inside lo hi t) ↔
      Span.Inside lo hi ⟨arg, devIoctlReach d req⟩ := by
  cases d with
  | null => exact iff_of_true (List.forall_mem_nil _) (inside_iff.2 (.inl rfl))
  | zero => exact iff_of_true (List.forall_mem_nil _) (inside_iff.2 (.inl rfl))
  | tty =>
      unfold devIoctl devIoctlReach ttyIoctl
      dsimp only
      exact twoRequests_inside_iff
  | input =>
      unfold devIoctl devIoctlReach
      exact devfsInputIoctl_inside_iff

theorem fdIoctlReach_le (fd : Int) (req : UInt64) : fdIoctlReach m fd req ≤ 2 ^ 16 := by
  unfold fdIoctlReach
  split
  · exact Nat.zero_le _
  · split
    · exact devIoctlReach_le _ _
    · exact Nat.zero_le _

variable {m}

/-- `fd_ioctl` stays in a range exactly when it has no argument or its reach does. -/
theorem fdIoctl_within_iff {fd : Int} {req : UInt64} {arg : Nat} :
    Within (Span.Inside lo hi) (fdIoctl m fd req arg) ↔
      (arg ≠ 0 → Span.Inside lo hi ⟨arg, fdIoctlReach m fd req⟩) := by
  have nothing : Span.Inside lo hi ⟨arg, 0⟩ := inside_iff.2 (.inl rfl)
  unfold fdIoctl fdIoctlReach
  split
  next => exact ⟨fun _ _ => nothing, fun _ => within_pure ()⟩
  next e _ =>
    split
    next d _ =>
      rw [within_ite, within_touchAll, devIoctl_inside_iff]
      exact ⟨fun both => both.2, fun rest => ⟨fun _ => within_pure (), rest⟩⟩
    next => exact ⟨fun _ _ => nothing, fun _ => within_pure ()⟩

end NTux.Sys.UserMem
