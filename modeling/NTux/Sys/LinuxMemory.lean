import NTux.Sys.Int80Within

/-!
# User memory and the two entries

`syscall_dispatch` and the Linux calls behind it use their pointers as they come.  A call stays
in the range of its thread exactly when the ranges it uses happen to be ones that
`user_ptr_range_ok` would have accepted (`user_pointers_inside_iff`); `uname_fills_the_kernel` is
a call that writes to the kernel.
-/

namespace NTux.Sys.UserMem

open NTux.Lib NTux.Lib.Touching

variable (m : Machine) (r : Regs)

/-! ## The Linux calls -/

/-- `memset` with zero. -/
def zeroed (mem : Nat → UInt8) (p n : Nat) (a : Nat) : UInt8 :=
  if p ≤ a ∧ a < p + n then 0 else mem a

/-- The string at `p` starts with `/dev/`. -/
def devPath (mem : Nat → UInt8) (p : Nat) : Bool :=
  mem p = 0x2F ∧ mem (p + 1) = 0x64 ∧ mem (p + 2) = 0x65 ∧ mem (p + 3) = 0x76 ∧ mem (p + 4) = 0x2F

/-- `linux_stat_path`: the record is cleared before the path is read. -/
def linuxStatPath (path st : Nat) : Handler := do
  check (path ≠ 0 ∧ st ≠ 0)
  touch ⟨st, 144⟩
  text m .strncmp path
  check (devPath (zeroed m.mem st 144) path = false)
  text m .fsReadFile path

/-- `linux_fstat_fd`. -/
def linuxFstatFd (st : Nat) : Handler := touchIf (st ≠ 0) ⟨st, 144⟩

/-- `linux_uname`: six names of 65 bytes. -/
def linuxUname (out : Nat) : Handler := touchIf (out ≠ 0) ⟨out, 390⟩

/-- `linux_clock_gettime`. -/
def linuxClockGettime (ts : Nat) : Handler := touchIf (ts ≠ 0) ⟨ts, 16⟩

/-- `linux_nanosleep`. -/
def linuxNanosleep (req rem : Nat) : Handler := do
  check (req ≠ 0)
  touch ⟨req, 16⟩
  touchIf (rem ≠ 0) ⟨rem, 16⟩

/-- `linux_syscall_dispatch`, for the calls with a pointer; its arguments are `rdi`, `rsi`,
`rdx` and `r10`. -/
def linuxSyscallDispatch : Handler :=
  match r.rax.toNat with
  | 0 => fdRead m (asInt r.rdi) r.rsi.toNat r.rdx.toNat
  | 1 => fdWrite m (asInt r.rdi) r.rsi.toNat r.rdx.toNat
  | 2 => fdOpen m r.rdi.toNat
  | 4 => linuxStatPath m r.rdi.toNat r.rsi.toNat
  | 5 => linuxFstatFd r.rsi.toNat
  | 16 => fdIoctl m (asInt r.rdi) r.rsi r.rdx.toNat
  | 21 => text m .fsExists r.rdi.toNat
  | 35 => linuxNanosleep r.rdi.toNat r.rsi.toNat
  | 63 => linuxUname r.rdi.toNat
  | 228 => linuxClockGettime r.rsi.toNat
  | 257 => fdOpen m r.rsi.toNat
  | 262 => linuxStatPath m r.rsi.toNat r.rdx.toNat
  | _ => pure ()

/-- `sys_write`. -/
def sysWrite (buf len : Nat) : Handler := touchIf (buf ≠ 0) ⟨buf, len⟩

/-- A call of `syscall_dispatch` that passes two strings on. -/
def twoTexts (c : Callee) (p q : Nat) : Handler := do
  text m c p
  text m c q

/-- `SYSCALL_FS_CREATE_FILE`. -/
def syscallFsCreateFile : Handler := do
  text m .fsCreateFile r.rdi.toNat
  text m .fsCreateFile r.rsi.toNat
  buffer m .fsCreateFile r.rdx.toNat r.r10.toNat

/-- `SYSCALL_FS_WRITE_FILE`. -/
def syscallFsWriteFile : Handler := do
  text m .fsWriteFile r.rdi.toNat
  buffer m .fsWriteFile r.rsi.toNat r.rdx.toNat

/-- `SYSCALL_FS_READ_FILE`. -/
def syscallFsReadFile : Handler := do
  text m .fsReadFile r.rdi.toNat
  buffer m .fsReadFile r.rsi.toNat r.rdx.toNat
  touchIf (r.r10.toNat ≠ 0) ⟨r.r10.toNat, 8⟩

/-- `syscall_dispatch`: the numbers of its own come before those of Linux. -/
def syscallDispatch : Handler :=
  match r.rax.toNat with
  | 0 => sysWrite r.rdi.toNat r.rsi.toNat
  | 1 => pure ()
  | 2 => pure ()
  | 3 => pure ()
  | 4 => pure ()
  | 20 => text m .fsExists r.rdi.toNat
  | 21 => twoTexts m .fsMkdir r.rdi.toNat r.rsi.toNat
  | 22 => syscallFsCreateFile m r
  | 23 => syscallFsWriteFile m r
  | 24 => syscallFsReadFile m r
  | 25 => text m .fsRemove r.rdi.toNat
  | 26 => twoTexts m .fsRename r.rdi.toNat r.rsi.toNat
  | 27 => twoTexts m .fsCopyFileFast r.rdi.toNat r.rsi.toNat
  | _ => linuxSyscallDispatch m r

/-! ## The conditions -/

/-- What a callee uses of the string at `p` would be accepted. -/
def TextMeets (c : Callee) (p : UInt64) : Prop :=
  userPtrRangeOk m p.toNat (m.textUsed c p.toNat) = true

/-- What a callee uses of a buffer would be accepted. -/
def BufferMeets (c : Callee) (p n : UInt64) : Prop :=
  userPtrRangeOk m p.toNat (m.bufUsed c p.toNat n.toNat) = true

/-- A record that is there would be accepted. -/
def RecordMeets (p : UInt64) (size : Nat) : Prop :=
  p.toNat ≠ 0 → userPtrRangeOk m p.toNat size = true

/-- What `fd_open` reads of the path would be accepted. -/
def OpenMeets (p : UInt64) : Prop :=
  p.toNat ≠ 0 → userPtrRangeOk m p.toNat 1 = true ∧
    (m.mem p.toNat = 0x2F → TextMeets m .strncmp p ∧ TextMeets m .fdOpenFile p)

/-- What `linux_stat_path` uses would be accepted. -/
def StatMeets (path st : UInt64) : Prop :=
  path.toNat ≠ 0 ∧ st.toNat ≠ 0 → userPtrRangeOk m st.toNat 144 = true ∧
    TextMeets m .strncmp path ∧
    (devPath (zeroed m.mem st.toNat 144) path.toNat = false → TextMeets m .fsReadFile path)

/-- What a Linux call has to meet. -/
def LinuxMeets : Prop :=
  match r.rax.toNat with
  | 0 => userPtrRangeOk m r.rsi.toNat
      (fdReadBytes m (asInt r.rdi) r.rsi.toNat r.rdx.toNat) = true
  | 1 => userPtrRangeOk m r.rsi.toNat
      (fdWriteBytes m (asInt r.rdi) r.rsi.toNat r.rdx.toNat) = true
  | 2 => OpenMeets m r.rdi
  | 4 => StatMeets m r.rdi r.rsi
  | 5 => RecordMeets m r.rsi 144
  | 16 => RecordMeets m r.rdx (fdIoctlReach m (asInt r.rdi) r.rsi)
  | 21 => TextMeets m .fsExists r.rdi
  | 35 => r.rdi.toNat ≠ 0 → userPtrRangeOk m r.rdi.toNat 16 = true ∧ RecordMeets m r.rsi 16
  | 63 => RecordMeets m r.rdi 390
  | 228 => RecordMeets m r.rsi 16
  | 257 => OpenMeets m r.rsi
  | 262 => StatMeets m r.rsi r.rdx
  | _ => True

/-- What a call of `syscall_dispatch` has to meet. -/
def SyscallMeets : Prop :=
  match r.rax.toNat with
  | 0 => RecordMeets m r.rdi r.rsi.toNat
  | 1 => True
  | 2 => True
  | 3 => True
  | 4 => True
  | 20 => TextMeets m .fsExists r.rdi
  | 21 => TextMeets m .fsMkdir r.rdi ∧ TextMeets m .fsMkdir r.rsi
  | 22 => TextMeets m .fsCreateFile r.rdi ∧ TextMeets m .fsCreateFile r.rsi ∧
      BufferMeets m .fsCreateFile r.rdx r.r10
  | 23 => TextMeets m .fsWriteFile r.rdi ∧ BufferMeets m .fsWriteFile r.rsi r.rdx
  | 24 => TextMeets m .fsReadFile r.rdi ∧ BufferMeets m .fsReadFile r.rsi r.rdx ∧
      RecordMeets m r.r10 8
  | 25 => TextMeets m .fsRemove r.rdi
  | 26 => TextMeets m .fsRename r.rdi ∧ TextMeets m .fsRename r.rsi
  | 27 => TextMeets m .fsCopyFileFast r.rdi ∧ TextMeets m .fsCopyFileFast r.rsi
  | _ => LinuxMeets m r

/-! ## The calls stay inside exactly under the conditions -/

section Within

variable {m r} {lo hi : Nat} (restricted : currentUserRange m = some (lo, hi))
include restricted

theorem span_iff {p : UInt64} {n : Nat} (size : n ≤ 2 ^ 64) :
    Span.Inside lo hi ⟨p.toNat, n⟩ ↔ userPtrRangeOk m p.toNat n = true :=
  (userPtrRangeOk_iff restricted p.toNat_lt size).symm

theorem text_iff {c : Callee} {p : UInt64} :
    Span.Inside lo hi ⟨p.toNat, m.textUsed c p.toNat⟩ ↔ TextMeets m c p := by
  have used := m.textUsed_le c p.toNat
  have cut := Nat.min_le_right (strlen m.mem p.toNat + 1) (2 ^ 64 - p.toNat)
  unfold cstrBytes at used
  exact span_iff restricted (by omega)

theorem buffer_iff {c : Callee} {p n : UInt64} :
    Span.Inside lo hi ⟨p.toNat, m.bufUsed c p.toNat n.toNat⟩ ↔ BufferMeets m c p n := by
  have used := m.bufUsed_le c p.toNat n.toNat
  have size := n.toNat_lt
  exact span_iff restricted (by omega)

theorem record_iff {p : UInt64} {n : Nat} (size : n ≤ 2 ^ 64) :
    (p.toNat ≠ 0 → Span.Inside lo hi ⟨p.toNat, n⟩) ↔ RecordMeets m p n :=
  imp_congr_right fun _ => span_iff restricted size

theorem fdOpen_within_iff {p : UInt64} :
    Within (Span.Inside lo hi) (fdOpen m p.toNat) ↔ OpenMeets m p := by
  have present : m.caller.isSome = true := Option.isSome_iff_ne_none.2 (caller_ne_none restricted)
  unfold fdOpen text
  rw [within_check_bind, within_touch_bind, within_check_bind, within_touch_bind, within_touch,
    text_iff restricted, text_iff restricted, span_iff restricted (by decide)]
  exact ⟨fun rest there => rest ⟨present, there⟩, fun rest both => rest both.2⟩

theorem linuxStatPath_within_iff {path st : UInt64} :
    Within (Span.Inside lo hi) (linuxStatPath m path.toNat st.toNat) ↔ StatMeets m path st := by
  unfold linuxStatPath text
  rw [within_check_bind, within_touch_bind, within_touch_bind, within_check_bind, within_touch,
    text_iff restricted, text_iff restricted, span_iff restricted (by decide)]
  exact Iff.rfl

theorem twoTexts_within_iff {c : Callee} {p q : UInt64} :
    Within (Span.Inside lo hi) (twoTexts m c p.toNat q.toNat) ↔
      TextMeets m c p ∧ TextMeets m c q := by
  unfold twoTexts text
  rw [within_touch_bind, within_touch, text_iff restricted, text_iff restricted]

theorem text_within_iff {c : Callee} {p : UInt64} :
    Within (Span.Inside lo hi) (text m c p.toNat) ↔ TextMeets m c p := by
  unfold text
  rw [within_touch, text_iff restricted]

/-- A Linux call stays inside exactly when the ranges it uses would be accepted. -/
theorem linux_within_iff :
    Within (Span.Inside lo hi) (linuxSyscallDispatch m r) ↔ LinuxMeets m r := by
  have reads := fdReadBytes_le m (asInt r.rdi) r.rsi.toNat r.rdx.toNat
  have writes := fdWriteBytes_le m (asInt r.rdi) r.rsi.toNat r.rdx.toNat
  have reach := fdIoctlReach_le m (asInt r.rdi) r.rsi
  have size := r.rdx.toNat_lt
  unfold linuxSyscallDispatch LinuxMeets
  split
  next =>
    unfold fdRead
    rw [within_touch, span_iff restricted (by omega)]
  next =>
    unfold fdWrite
    rw [within_touch, span_iff restricted (by omega)]
  next => exact fdOpen_within_iff restricted
  next => exact linuxStatPath_within_iff restricted
  next =>
    unfold linuxFstatFd
    rw [within_touchIf, record_iff restricted (by decide)]
  next => rw [fdIoctl_within_iff, record_iff restricted (by omega)]
  next => exact text_within_iff restricted
  next =>
    unfold linuxNanosleep
    rw [within_check_bind, within_touch_bind, within_touchIf, span_iff restricted (by decide),
      record_iff restricted (by decide)]
  next =>
    unfold linuxUname
    rw [within_touchIf, record_iff restricted (by decide)]
  next =>
    unfold linuxClockGettime
    rw [within_touchIf, record_iff restricted (by decide)]
  next => exact fdOpen_within_iff restricted
  next => exact linuxStatPath_within_iff restricted
  next => exact iff_of_true (within_pure ()) trivial

/-- A call of `syscall_dispatch` stays inside exactly when the ranges it uses would be
accepted. -/
theorem syscall_within_iff :
    Within (Span.Inside lo hi) (syscallDispatch m r) ↔ SyscallMeets m r := by
  have size := r.rsi.toNat_lt
  unfold syscallDispatch SyscallMeets
  split
  next =>
    unfold sysWrite
    rw [within_touchIf, record_iff restricted (by omega)]
  next => exact iff_of_true (within_pure ()) trivial
  next => exact iff_of_true (within_pure ()) trivial
  next => exact iff_of_true (within_pure ()) trivial
  next => exact iff_of_true (within_pure ()) trivial
  next => exact text_within_iff restricted
  next => exact twoTexts_within_iff restricted
  next =>
    unfold syscallFsCreateFile text buffer
    rw [within_touch_bind, within_touch_bind, within_touch, text_iff restricted,
      text_iff restricted, buffer_iff restricted]
  next =>
    unfold syscallFsWriteFile text buffer
    rw [within_touch_bind, within_touch, text_iff restricted, buffer_iff restricted]
  next =>
    unfold syscallFsReadFile text buffer
    rw [within_touch_bind, within_touch_bind, within_touchIf, text_iff restricted,
      buffer_iff restricted, record_iff restricted (by decide)]
  next => exact text_within_iff restricted
  next => exact twoTexts_within_iff restricted
  next => exact twoTexts_within_iff restricted
  next => exact linux_within_iff restricted

end Within

/-! ## Both entries -/

/-- The ways into the kernel: `int 0x80`, the `syscall` instruction, and the Linux dispatcher
by itself. -/
inductive Entry
  | int80
  | syscall
  | linux
  deriving DecidableEq

/-- The dispatcher behind an entry. -/
def Entry.handler : Entry → Machine → Regs → Handler
  | .int80 => syscallInt80Dispatch
  | .syscall => syscallDispatch
  | .linux => linuxSyscallDispatch

/-- What a call through an entry has to meet. -/
def Entry.Meets : Entry → Machine → Regs → Prop
  | .int80 => Int80Meets
  | .syscall => SyscallMeets
  | .linux => LinuxMeets

/-- Every range that a call touches lies inside `[lo, hi)`. -/
def Entry.StaysInside (e : Entry) (m : Machine) (r : Regs) (lo hi : Nat) : Prop :=
  Within (Span.Inside lo hi) (e.handler m r)

/-- A thread whose range is `[0x400000, 0x800000)`, in a kernel without anything else. -/
def smallMachine : Machine where
  mem := fun _ => 0
  caller := some ⟨0x400000, 0x800000, 0, fun _ => ⟨false, .none, 0, 0, 0⟩⟩
  tasks := 1
  events := 0
  framebuffer := none
  kmalloc := true
  http := .failed
  answer := fun _ => none
  textUsed := fun _ p => cstrBytes (fun _ => 0) p
  bufUsed := fun _ _ n => n
  textUsed_le := fun _ _ => Nat.le_refl _
  bufUsed_le := fun _ _ n => Nat.le_refl n

theorem smallMachine_range : currentUserRange smallMachine = some (0x400000, 0x800000) := by
  decide

/-- The registers of `uname` with the given address. -/
def unameAt (p : UInt64) : Regs := ⟨63, p, 0, 0, 0, 0⟩

/-- A call of a thread with a range touches only that range exactly when it meets the condition
of its entry. -/
theorem user_pointers_inside_iff {m : Machine} {lo hi : Nat}
    (restricted : currentUserRange m = some (lo, hi)) (e : Entry) (r : Regs) :
    e.StaysInside m r lo hi ↔ e.Meets m r := by
  cases e with
  | int80 => exact int80_within_iff restricted
  | syscall => exact syscall_within_iff restricted
  | linux => exact linux_within_iff restricted

/-- A name record in the range is filled there. -/
theorem user_pointers_inside_uname :
    Entry.syscall.StaysInside smallMachine (unameAt 0x400000) 0x400000 0x800000 := by
  refine (user_pointers_inside_iff smallMachine_range .syscall (unameAt 0x400000)).2 ?_
  intro _
  decide

/-- `uname` fills a record in the kernel's half of the address space. -/
theorem uname_fills_the_kernel : ¬ ∀ (m : Machine) (lo hi : Nat),
    currentUserRange m = some (lo, hi) → ∀ (e : Entry) (r : Regs), e.StaysInside m r lo hi := by
  intro all
  have inside := all smallMachine 0x400000 0x800000 smallMachine_range .syscall
    (unameAt 0xFFFFFFFF80000000)
  -- the first byte of the record is behind the end of the range
  have record := inside ⟨0xFFFFFFFF80000000, 390⟩ (List.mem_singleton_self _)
  exact absurd (record 0 (by decide)).2 (by decide)

end NTux.Sys.UserMem
