import NTux.Sys.UserPointers

/-!
# What `int 0x80` does with user memory

The calls of `syscall_int80_dispatch` that have a pointer among their arguments, each with its
checks and with what it then reads and writes at an address the call supplies.  The other calls
supply none; the blocks that already are on the free list of `umalloc` are not supplied by the
call that walks over them.

Every pointer is checked before it is used, but four calls check something else than what they
use: `ioctl` checks 256 bytes and the input device fills as many as the request says,
`getgroups` and `setgroups` take a null pointer with any count, and `ufree` checks nothing
(`int80_within_iff` in the next module).
-/

namespace NTux.Sys.UserMem

open NTux.Lib NTux.Lib.Touching

/-- The registers a call arrives with. -/
structure Regs where
  rax : UInt64
  rdi : UInt64
  rsi : UInt64
  rdx : UInt64
  rcx : UInt64
  r10 : UInt64

variable (m : Machine) (r : Regs)

/-! ## Families of calls -/

/-- A call that passes one string on. -/
def textCall (c : Callee) (p maxScan : Nat) : Handler := do
  checkCstr m p maxScan
  text m c p

/-- A call that passes two strings on. -/
def twoTextCall (c : Callee) (p pMax q qMax : Nat) : Handler := do
  checkCstr m p pMax
  checkCstr m q qMax
  text m c p
  text m c q

/-- A call that reads or fills one record; it gets there only where `ready` holds. -/
def recordCall (p size : Nat) (ready : Bool) : Handler := do
  check (p ≠ 0)
  checkRange m p size
  touchIf (ready = true) ⟨p, size⟩

/-- A call whose answer is a text, cut to the capacity of the buffer. -/
def replyCall (c : Callee) (p cap capMax : Nat) : Handler := do
  check (p ≠ 0 ∧ cap ≠ 0 ∧ cap ≤ capMax)
  checkRange m p cap
  touch ⟨p, min ((m.answer c).getD 0) (cap - 1) + 1⟩

/-- A line of the user database, of at most 250 bytes and the terminator. -/
def entryLine (c : Callee) (p : Nat) : Handler :=
  match m.answer c with
  | some len => touch ⟨p, min len 250 + 1⟩
  | none => pure ()

/-- A call that passes a buffer on to the network. -/
def tcpCall (c : Callee) (p n : Nat) : Handler := do
  check (p ≠ 0 ∧ n ≠ 0 ∧ n ≤ 65536)
  checkRange m p n
  buffer m c p n

/-- An optional pointer to a result. -/
def checkOptional (p size : Nat) : Handler := check (p = 0 ∨ userPtrRangeOk m p size = true)

/-- A product fits, and the range of that size is accepted. -/
def checkArray (p n size : Nat) : Handler :=
  match mulOverflowSize n size with
  | some bytes => checkRange m p bytes
  | none => check False

/-- A call that fills an array that is checked if there are entries in it. -/
def listCall (count : Nat) (p n size result : Nat) : Handler := do
  if 0 < n then
    check (p ≠ 0)
    checkArray m p n size
  checkOptional m result 8
  touchIf (p ≠ 0 ∧ 0 < n) ⟨p, min count n * size⟩
  touchIf (result ≠ 0) ⟨result, 8⟩

/-- A call that fills an array of at most 16 entries, which is checked if there is one. -/
def driveListCall (c : Callee) (p n size result : Nat) : Handler := do
  if p ≠ 0 then checkArray m p (min n 16) size
  checkOptional m result 8
  touchIf (p ≠ 0) ⟨p, min ((m.answer c).getD 0) (min n 16) * size⟩
  touchIf (result ≠ 0) ⟨result, 8⟩

/-- A call that moves sectors. -/
def sectorCall (c : Callee) (sectors : UInt64) (p : Nat) : Handler := do
  checkArray m p (sectors.toNat % 2 ^ 32) 512
  buffer m c p (sectors.toNat % 2 ^ 32 * 512)

/-- What an HTTP request stores: the body of the response, cut to the buffer, or a message
without a terminator. -/
def httpReply (failedLen : Nat) (p cap : Nat) : Handler :=
  match m.http with
  | .https => touch ⟨p, min 21 cap⟩
  | .failed => touch ⟨p, min failedLen cap⟩
  | .body len => touch ⟨p, min len (cap - 1) + 1⟩

/-! ## The calls -/

/-- `INT80_WRITE`. -/
def int80Write : Handler := do
  check (r.rdi.toNat ≠ 0)
  checkRange m r.rdi.toNat r.rsi.toNat
  touch ⟨r.rdi.toNat, r.rsi.toNat⟩

/-- `INT80_TASK_ADD`. -/
def int80TaskAdd : Handler := do
  checkCstr m r.rdi.toNat 512
  touch ⟨r.rdi.toNat, 1⟩
  check (m.mem r.rdi.toNat ≠ 0)
  text m .moduleLoaderStartElf r.rdi.toNat

/-- `INT80_TASK_ADD_MODULE`. -/
def int80TaskAddModule : Handler := do
  checkCstr m r.rdi.toNat 128
  touch ⟨r.rdi.toNat, 1⟩
  check (m.mem r.rdi.toNat ≠ 0)
  text m .moduleLoaderStartModule r.rdi.toNat

/-- `INT80_TASK_LIST`. -/
def int80TaskList : Handler := listCall m m.tasks r.rdi.toNat r.rsi.toNat 80 r.rdx.toNat

/-- `INT80_MODULE_LIST`. -/
def int80ModuleList : Handler :=
  listCall m ((m.answer .moduleLoaderList).getD 0) r.rdi.toNat r.rsi.toNat 224 r.rdx.toNat

/-- `INT80_CHMOD`. -/
def int80Chmod : Handler := textCall m .vfsChmod r.rdi.toNat 1024

/-- `INT80_CHOWN`. -/
def int80Chown : Handler := textCall m .vfsChown r.rdi.toNat 1024

/-- `INT80_STAT`. -/
def int80Stat : Handler := do
  checkCstr m r.rdi.toNat 1024
  checkRange m r.rsi.toNat 64
  text m .vfsGetattr r.rdi.toNat
  check ((m.answer .vfsGetattr).isSome = true)
  text m .vfsReadFile r.rdi.toNat
  touch ⟨r.rsi.toNat, 64⟩

/-- `INT80_GETGROUPS`: the size is computed without a check for an overflow, and a null pointer
is not checked. -/
def int80Getgroups : Handler := do
  check (r.rdi.toNat = 0 ∨
    userPtrRangeOk m r.rdi.toNat (asSize (asInt r.rsi) * 4 % 2 ^ 64) = true)
  match m.caller with
  | some t => touch ⟨r.rdi.toNat, (min t.ngroups (asInt r.rsi)).toNat * 4⟩
  | none => pure ()

/-- `INT80_SETGROUPS`; `USER_MAX_GROUPS` is 32. -/
def int80Setgroups : Handler := do
  check (r.rdi.toNat = 0 ∨
    userPtrRangeOk m r.rdi.toNat (asSize (asInt r.rsi) * 4 % 2 ^ 64) = true)
  match m.caller with
  | some _ => touch ⟨r.rdi.toNat, (min (asInt r.rsi) 32).toNat * 4⟩
  | none => pure ()

/-- `INT80_AUTH_USER`; `USER_MAX_NAME` is 32 and `USER_MAX_PASS` 128. -/
def int80AuthUser : Handler := twoTextCall m .sysAuthUser r.rdi.toNat 32 r.rsi.toNat 128

/-- `INT80_GETPWNAM`. -/
def int80Getpwnam : Handler := do
  check (r.rdi.toNat ≠ 0)
  checkRange m r.rdi.toNat 256
  checkCstr m r.rsi.toNat 32
  text m .sysUserGetByName r.rsi.toNat
  entryLine m .sysUserGetByName r.rdi.toNat

/-- `INT80_GETPWUID`. -/
def int80Getpwuid : Handler := do
  check (r.rdi.toNat ≠ 0)
  checkRange m r.rdi.toNat 256
  entryLine m .sysUserGetByUid r.rdi.toNat

/-- `INT80_GETGRNAM`. -/
def int80Getgrnam : Handler := do
  check (r.rdi.toNat ≠ 0)
  checkRange m r.rdi.toNat 256
  checkCstr m r.rsi.toNat 32
  text m .sysGroupGetByName r.rsi.toNat
  entryLine m .sysGroupGetByName r.rdi.toNat

/-- `INT80_GETGRGID`. -/
def int80Getgrgid : Handler := do
  check (r.rdi.toNat ≠ 0)
  checkRange m r.rdi.toNat 256
  entryLine m .sysGroupGetByGid r.rdi.toNat

/-- `INT80_FS_EXISTS`. -/
def int80FsExists : Handler := textCall m .fsExists r.rdi.toNat 1024

/-- `INT80_FS_MKDIR`. -/
def int80FsMkdir : Handler := twoTextCall m .fsMkdir r.rdi.toNat 1024 r.rsi.toNat 256

/-- `INT80_FS_CREATE_FILE`. -/
def int80FsCreateFile : Handler := do
  checkCstr m r.rdi.toNat 1024
  checkCstr m r.rsi.toNat 256
  checkRange m r.rdx.toNat r.rcx.toNat
  text m .fsCreateFile r.rdi.toNat
  text m .fsCreateFile r.rsi.toNat
  buffer m .fsCreateFile r.rdx.toNat r.rcx.toNat

/-- `INT80_FS_WRITE_FILE`. -/
def int80FsWriteFile : Handler := do
  checkCstr m r.rdi.toNat 1024
  checkRange m r.rsi.toNat r.rdx.toNat
  text m .fsWriteFile r.rdi.toNat
  buffer m .fsWriteFile r.rsi.toNat r.rdx.toNat

/-- `INT80_FS_READ_FILE`. -/
def int80FsReadFile : Handler := do
  checkCstr m r.rdi.toNat 1024
  checkRange m r.rsi.toNat r.rdx.toNat
  checkOptional m r.rcx.toNat 8
  text m .fsReadFile r.rdi.toNat
  buffer m .fsReadFile r.rsi.toNat r.rdx.toNat
  touchIf (r.rcx.toNat ≠ 0) ⟨r.rcx.toNat, 8⟩

/-- `INT80_FS_LIST_DIR`: at most 64 entries are copied from a list of the kernel's own. -/
def int80FsListDir : Handler := do
  checkCstr m r.rdi.toNat 1024
  if r.rsi.toNat ≠ 0 then checkArray m r.rsi.toNat r.rdx.toNat 80
  checkOptional m r.rcx.toNat 8
  check (r.rsi.toNat = 0 ∨ r.rdx.toNat = 0 ∨ m.kmalloc = true)
  text m .fsListDir r.rdi.toNat
  touchIf (r.rsi.toNat ≠ 0 ∧ r.rdx.toNat ≠ 0)
    ⟨r.rsi.toNat, min ((m.answer .fsListDir).getD 0) (min r.rdx.toNat 64) * 80⟩
  touchIf (r.rcx.toNat ≠ 0) ⟨r.rcx.toNat, 8⟩

/-- `INT80_FS_REMOVE`. -/
def int80FsRemove : Handler := textCall m .fsRemove r.rdi.toNat 1024

/-- `INT80_FS_RENAME`. -/
def int80FsRename : Handler := twoTextCall m .fsRename r.rdi.toNat 1024 r.rsi.toNat 1024

/-- `INT80_FS_COPY_FAST`. -/
def int80FsCopyFast : Handler := twoTextCall m .fsCopyFileFast r.rdi.toNat 1024 r.rsi.toNat 1024

/-- `INT80_MOUSE_GET_STATE`. -/
def int80MouseGetState : Handler := recordCall m r.rdi.toNat 16 true

/-- `INT80_KBD_GET_STATE`. -/
def int80KbdGetState : Handler := do
  check (r.rdi.toNat ≠ 0 ∧ r.rsi.toNat ≠ 0 ∧ r.rsi.toNat ≤ 128)
  checkRange m r.rdi.toNat r.rsi.toNat
  touch ⟨r.rdi.toNat, r.rsi.toNat⟩

/-- `INT80_KBD_SET_LAYOUT`. -/
def int80KbdSetLayout : Handler := do
  checkCstr m r.rdi.toNat 32
  touch ⟨r.rdi.toNat, 1⟩
  check (m.mem r.rdi.toNat ≠ 0)
  text m .keyboardSetLayout r.rdi.toNat

/-- `INT80_FB_GET_INFO`. -/
def int80FbGetInfo : Handler := recordCall m r.rdi.toNat 24 true

/-- The format checks of `INT80_FB_BLIT32`; `LIMINE_FRAMEBUFFER_RGB` is 1. -/
def Framebuffer.accepted (fb : Framebuffer) : Bool :=
  (fb.bpp = 32 ∨ fb.bpp = 24) ∧ fb.memoryModel = 1 ∧
    fb.redMaskSize ≠ 0 ∧ fb.greenMaskSize ≠ 0 ∧ fb.blueMaskSize ≠ 0 ∧
    fb.redMaskShift + fb.redMaskSize ≤ fb.bpp ∧ fb.greenMaskShift + fb.greenMaskSize ≤ fb.bpp ∧
    fb.blueMaskShift + fb.blueMaskSize ≤ fb.bpp

/-- `INT80_FB_BLIT32`: the pixels of each row, cut to the screen. -/
def int80FbBlit32 : Handler := do
  let width := r.rsi.toNat % 2 ^ 32
  let height := r.rdx.toNat % 2 ^ 32
  let pitch := r.rcx.toNat % 2 ^ 32
  check (r.rdi.toNat ≠ 0 ∧ width ≠ 0 ∧ height ≠ 0 ∧ pitch ≠ 0)
  check (width ≤ (2 ^ 32 - 1) / 4)
  check (width * 4 ≤ pitch)
  checkArray m r.rdi.toNat pitch height
  match m.framebuffer with
  | none => pure ()
  | some fb =>
      check (fb.accepted = true)
      touchAll ((List.range (min height (fb.height % 2 ^ 32))).map fun y =>
        ⟨r.rdi.toNat + y * pitch, min width (fb.width % 2 ^ 32) * 4⟩)

/-- `INT80_GET_TIME`. -/
def int80GetTime : Handler := recordCall m r.rdi.toNat 8 (m.answer .cmosReadTime).isSome

/-- `INT80_BLK_LIST`. -/
def int80BlkList : Handler :=
  driveListCall m .fsGetBlockDevices r.rdi.toNat r.rsi.toNat 64 r.rdx.toNat

/-- `INT80_BLK_PART_LIST`. -/
def int80BlkPartList : Handler :=
  driveListCall m .fsListPartitions r.rsi.toNat r.rdx.toNat 24 r.rcx.toNat

/-- `INT80_BLK_READ`. -/
def int80BlkRead : Handler := sectorCall m .fsBlockRead r.rdx r.rcx.toNat

/-- `INT80_BLK_WRITE`. -/
def int80BlkWrite : Handler := sectorCall m .fsBlockWrite r.rdx r.rcx.toNat

/-- `INT80_BLK_SET_MBR_PART`. -/
def int80BlkSetMbrPart : Handler := recordCall m r.rdi.toNat 12 true

/-- `fd_open`: a path that does not start with a slash is not read further. -/
def fdOpen (p : Nat) : Handler := do
  check (m.caller.isSome = true ∧ p ≠ 0)
  touch ⟨p, 1⟩
  check (m.mem p = 0x2F)
  text m .strncmp p
  text m .fdOpenFile p

/-- `INT80_OPEN`. -/
def int80Open : Handler := do
  checkCstr m r.rdi.toNat 1024
  fdOpen m r.rdi.toNat

/-- `INT80_READ`. -/
def int80Read : Handler := do
  checkRange m r.rsi.toNat r.rdx.toNat
  fdRead m (asInt r.rdi) r.rsi.toNat r.rdx.toNat

/-- `INT80_WRITE_FD`. -/
def int80WriteFd : Handler := do
  checkRange m r.rsi.toNat r.rdx.toNat
  fdWrite m (asInt r.rdi) r.rsi.toNat r.rdx.toNat

/-- `INT80_IOCTL`. -/
def int80Ioctl : Handler := do
  checkOptional m r.rdx.toNat 256
  fdIoctl m (asInt r.rdi) r.rsi r.rdx.toNat

/-- `INT80_NET_PING`. -/
def int80NetPing : Handler := do
  checkCstr m r.rdi.toNat 256
  check (r.rsi.toNat ≠ 0 ∧ r.rdx.toNat ≠ 0 ∧ r.rdx.toNat ≤ 2048)
  checkRange m r.rsi.toNat r.rdx.toNat
  text m .parseIpv4 r.rdi.toNat
  text m .networkDnsLookup r.rdi.toNat
  match m.answer .networkIcmpSinglePing with
  | some len => touch ⟨r.rsi.toNat, min len (r.rdx.toNat - 1) + 1⟩
  | none => pure ()

/-- `INT80_NET_HTTP_GET`: at most 511 bytes of the address are copied. -/
def int80NetHttpGet : Handler := do
  checkCstr m r.rdi.toNat 512
  check (r.rsi.toNat ≠ 0 ∧ r.rdx.toNat ≠ 0 ∧ r.rdx.toNat ≤ 65536)
  checkRange m r.rsi.toNat r.rdx.toNat
  check (m.kmalloc = true)
  touch ⟨r.rdi.toNat, min (strlen m.mem r.rdi.toNat + 1) 511⟩
  httpReply m 21 r.rsi.toNat r.rdx.toNat

/-- `INT80_NET_HTTP_POST`. -/
def int80NetHttpPost : Handler := do
  checkCstr m r.rdi.toNat 512
  check (r.rsi.toNat ≠ 0 ∧ r.rdx.toNat ≠ 0 ∧ r.rdx.toNat ≤ 65536)
  checkRange m r.rsi.toNat r.rdx.toNat
  check (r.rcx.toNat ≠ 0)
  checkCstr m r.rcx.toNat 4096
  check (m.kmalloc = true)
  touch ⟨r.rdi.toNat, min (strlen m.mem r.rdi.toNat + 1) 511⟩
  text m .httpPost r.rcx.toNat
  httpReply m 26 r.rsi.toNat r.rdx.toNat

/-- `INT80_NET_DEBUG`. -/
def int80NetDebug : Handler := replyCall m .networkDebug r.rdi.toNat r.rsi.toNat 2048

/-- `INT80_NET_TCP_SEND`. -/
def int80NetTcpSend : Handler := tcpCall m .networkTcpSend r.rdi.toNat r.rsi.toNat

/-- `INT80_NET_TCP_RECV`. -/
def int80NetTcpRecv : Handler := tcpCall m .networkTcpRecv r.rdi.toNat r.rsi.toNat

/-- `INT80_NET_TCP_RECV_NB`. -/
def int80NetTcpRecvNb : Handler := tcpCall m .networkTcpRecvNb r.rdi.toNat r.rsi.toNat

/-- `INT80_NET_DNS_LOOKUP`. -/
def int80NetDnsLookup : Handler := do
  check (r.rdi.toNat ≠ 0)
  checkCstr m r.rdi.toNat 256
  check (r.rsi.toNat ≠ 0)
  checkRange m r.rsi.toNat 4
  text m .networkDnsLookup r.rdi.toNat
  touchIf ((m.answer .networkDnsLookup).isSome = true) ⟨r.rsi.toNat, 4⟩

/-- `INT80_DESKAPI_PUSH`; `DESKAPI_MAX_MSG` is 60000. -/
def int80DeskapiPush : Handler := do
  check (r.rdi.toNat ≠ 0 ∧ r.rsi.toNat ≠ 0 ∧ r.rsi.toNat ≤ 60000)
  checkRange m r.rdi.toNat r.rsi.toNat
  buffer m .deskapiPush r.rdi.toNat r.rsi.toNat

/-- `INT80_DESKAPI_POP`: a message is delivered, with a terminator, where it fits. -/
def int80DeskapiPop : Handler := do
  check (r.rdi.toNat ≠ 0 ∧ r.rsi.toNat ≠ 0 ∧ r.rsi.toNat ≤ 60001)
  checkRange m r.rdi.toNat r.rsi.toNat
  checkOptional m r.rdx.toNat 8
  match m.answer .deskapiPop with
  | some len =>
      check (len < r.rsi.toNat)
      touch ⟨r.rdi.toNat, len + 1⟩
      touchIf (r.rdx.toNat ≠ 0) ⟨r.rdx.toNat, 8⟩
  | none => touchIf (r.rdx.toNat ≠ 0) ⟨r.rdx.toNat, 8⟩

/-- `INT80_GET_MEM_INFO`. -/
def int80GetMemInfo : Handler := recordCall m r.rdi.toNat 16 true

/-- `INT80_GET_DISK_STATS`. -/
def int80GetDiskStats : Handler := recordCall m r.rdi.toNat 16 true

/-- `INT80_GET_CPU_INFO`. -/
def int80GetCpuInfo : Handler := recordCall m r.rdi.toNat 24 true

/-- `INT80_GET_CPU_BRAND`. -/
def int80GetCpuBrand : Handler := replyCall m .infoGetCpuBrand r.rdi.toNat r.rsi.toNat 128

/-- `INT80_DIALOG_POP`; `DIALOG_MAX_TEXT` is 256. -/
def int80DialogPop : Handler := do
  check (m.caller.isSome = true)
  check (r.rdi.toNat ≠ 0 ∧ r.rsi.toNat ≠ 0 ∧ r.rsi.toNat ≤ 256)
  checkRange m r.rdi.toNat r.rsi.toNat
  checkOptional m r.rdx.toNat 4
  match m.answer .deskapiDialogPop with
  | some len =>
      touch ⟨r.rdi.toNat, min len (r.rsi.toNat - 1) + 1⟩
      touchIf (r.rdx.toNat ≠ 0) ⟨r.rdx.toNat, 4⟩
  | none => touchIf (r.rdx.toNat ≠ 0) ⟨r.rdx.toNat, 4⟩

/-- `INT80_DIALOG_PUSH`: the whole text is measured, and at most 255 bytes are copied;
`MAX_THREADS` is 1024. -/
def int80DialogPush : Handler := do
  check (0 ≤ asInt r.rdi ∧ asInt r.rdi < 1024)
  check (r.rdx.toNat ≠ 0)
  checkCstr m r.rdx.toNat 256
  touch ⟨r.rdx.toNat, strlen m.mem r.rdx.toNat + 1⟩

/-- `INT80_AUDIO_PLAY`: as many samples as the ring takes. -/
def int80AudioPlay : Handler := do
  let count := r.rsi.toNat % 2 ^ 32
  check (r.rdi.toNat ≠ 0 ∧ count ≠ 0)
  checkRange m r.rdi.toNat (count * 2)
  touch ⟨r.rdi.toNat, min count ((m.answer .audioPlay).getD 0) * 2⟩

/-- `INT80_UFREE`: the header of the block lies before the pointer. -/
def int80Ufree : Handler := do
  check (r.rdi.toNat ≠ 0)
  touch ⟨(r.rdi.toNat + (2 ^ 64 - 16)) % 2 ^ 64, 16⟩

/-- `syscall_int80_dispatch`, for the calls with a pointer. -/
def syscallInt80Dispatch : Handler :=
  match r.rax.toNat with
  | 1 => int80Write m r
  | 20 => int80TaskAdd m r
  | 21 => int80TaskList m r
  | 24 => int80TaskAddModule m r
  | 30 => int80FsExists m r
  | 31 => int80FsMkdir m r
  | 32 => int80FsCreateFile m r
  | 33 => int80FsWriteFile m r
  | 34 => int80FsReadFile m r
  | 35 => int80FsListDir m r
  | 36 => int80FsRemove m r
  | 37 => int80FsRename m r
  | 39 => int80FsCopyFast m r
  | 50 => int80MouseGetState m r
  | 53 => int80KbdGetState m r
  | 60 => int80FbGetInfo m r
  | 61 => int80FbBlit32 m r
  | 63 => int80GetTime m r
  | 70 => int80BlkList m r
  | 71 => int80BlkPartList m r
  | 72 => int80BlkRead m r
  | 73 => int80BlkWrite m r
  | 74 => int80BlkSetMbrPart m r
  | 80 => int80Open m r
  | 81 => int80Read m r
  | 82 => int80WriteFd m r
  | 84 => int80Ioctl m r
  | 90 => int80NetPing m r
  | 91 => int80NetHttpGet m r
  | 92 => int80NetDebug m r
  | 94 => int80NetHttpPost m r
  | 96 => int80NetTcpSend m r
  | 97 => int80NetTcpRecv m r
  | 99 => int80NetDnsLookup m r
  | 100 => int80DeskapiPush m r
  | 101 => int80DeskapiPop m r
  | 110 => int80GetMemInfo m r
  | 111 => int80GetDiskStats m r
  | 112 => int80GetCpuInfo m r
  | 113 => int80GetCpuBrand m r
  | 114 => int80DialogPop m r
  | 115 => int80DialogPush m r
  | 116 => int80ModuleList m r
  | 124 => int80Chmod m r
  | 125 => int80Chown m r
  | 126 => int80Stat m r
  | 128 => int80Getgroups m r
  | 129 => int80Setgroups m r
  | 130 => int80AuthUser m r
  | 131 => int80Getpwnam m r
  | 132 => int80Getpwuid m r
  | 133 => int80Getgrnam m r
  | 134 => int80Getgrgid m r
  | 140 => int80KbdSetLayout m r
  | 141 => int80AudioPlay m r
  | 151 => int80Ufree r
  | 152 => int80NetTcpRecvNb m r
  | _ => pure ()

end NTux.Sys.UserMem
