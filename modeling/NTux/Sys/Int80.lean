import NTux.Fs.FsCalls
import NTux.Sys.UserDb

/-!
# The system calls

The identities and descriptor tables of the threads (`sched/thread.c`, `fs/fd.c`) and the
dispatcher of `int 0x80` (`syscall/int80.c`).

A call carries its arguments as the dispatcher sees them behind its pointer checks: a
string or a buffer is `none` where `user_cstr_ok` or `user_ptr_range_ok` refuses it.  What
the environment decides (whether memory is there, whether a program can be launched) is
an argument too.  The calls of the dispatcher that concern neither an identity nor a file
(console, screen, keyboard, mouse, time, network, audio, memory, lists of tasks, modules
and drives, lookups in the user database) are one call without effect here.

A thread that has ended keeps its slot until the scheduler reaps it; nothing here depends
on when that is.
-/

namespace NTux.Sys

open NTux.Fs hiding CString

/-! ## Threads -/

/-- `FD_MAX`. -/
def fdMax : Nat := 64

/-- `MAX_THREADS`. -/
def threadMax : Nat := 1024

/-- `fd_kind_t` of a descriptor in use: a file with the copy of its bytes made at the
opening, or a node of `/dev`. -/
inductive FdKind
  | file (fileBuf : List UInt8) (fileLen : Nat)
  | dev (node : CString)
  deriving DecidableEq

/-- `fd_entry_t`, in use. -/
structure FdEntry where
  kind : FdKind
  flags : UInt32
  pos : Nat
  path : CString
  deriving DecidableEq

/-- The part of `thread_t` that says who the thread is and what it has open. -/
structure Thread where
  uid : UInt32
  euid : UInt32
  gid : UInt32
  egid : UInt32
  groups : List UInt32
  fds : Nat → Option FdEntry

/-- `thread_init_common`: a thread starts as root's. -/
def newThread : Thread := ⟨0, 0, 0, 0, [], fun _ => none⟩

/-- The kernel, as far as the calls below see it: `thread_list`, where the id of a new
thread is the length of the list, the thread that runs, the VFS, the users, and the
threads the loader started last. -/
structure Kernel (σ : Type) where
  threads : List (Option Thread)
  current : Nat
  vfs : Vfs σ
  users : UserDb
  lastElfTid : Nat
  lastHelloTid : Nat

variable {σ : Type}

/-- The thread with the given id. -/
def Kernel.thread (k : Kernel σ) (tid : Nat) : Option Thread := (k.threads[tid]?).join

/-- `fd_current_thread`. -/
def Kernel.currentThread (k : Kernel σ) : Option Thread := k.thread k.current

/-- What the permission check reads of the current thread; root without one. -/
def Kernel.identity (k : Kernel σ) : Identity :=
  match k.currentThread with
  | some t => ⟨t.uid, t.gid⟩
  | none => ⟨0, 0⟩

/-- The current thread is changed, as by the functions `thread_set_current_*`. -/
def Kernel.setCurrent (k : Kernel σ) (f : Thread → Thread) : Kernel σ :=
  { k with threads := k.threads.modify k.current (Option.map f) }

/-- `thread_create`. -/
def threadCreate (k : Kernel σ) : Option (Kernel σ) :=
  if k.threads.length < threadMax then some { k with threads := k.threads ++ [some newThread] }
  else none

/-! ## Descriptors -/

/-- `O_CREAT`. -/
def oCreat : UInt32 := 0x40

/-- `fd_can_read`. -/
def fdCanRead (e : FdEntry) : Bool := e.flags &&& 3 = 0 || e.flags &&& 3 = 2

/-- `fd_can_write`. -/
def fdCanWrite (e : FdEntry) : Bool := e.flags &&& 3 = 1 || e.flags &&& 3 = 2

/-- `fd_alloc_slot`. -/
def fdAllocSlot (t : Thread) : Option Nat := (List.range fdMax).find? fun i => (t.fds i).isNone

/-- The descriptor `fd`, where it is one of the table and in use. -/
def Thread.entry (t : Thread) (fd : Int) : Option FdEntry :=
  if 0 ≤ fd ∧ fd < fdMax then t.fds fd.toNat else none

/-- The table with one slot changed. -/
def Thread.setEntry (t : Thread) (i : Nat) (e : Option FdEntry) : Thread :=
  { t with fds := Function.update t.fds i e }

/-- The file `fd_open_file` makes where there is none and `O_CREAT` is given. -/
def fdCreate (who : Identity) (v : Vfs σ) (path : CString) (flags : UInt32) :
    Option (Vfs σ) × Vfs σ :=
  if vfsExists v path ≠ 0 then (some v, v)
  else if flags &&& oCreat = 0 then (none, v)
  else
    let name := leafName path
    let parent := path.take (path.length - name.length - 1)
    if parent = [] ∨ vfsMaxPath ≤ parent.length then (none, v)
    else
      let made := fsCreateFile who v parent (name.take (vfsMaxName - 1)) []
      if made.1 ≠ 0 then (none, made.2) else (some made.2, made.2)

/-- The two reads of `fd_open_file`: the length, and then the content, into a buffer
`kmalloc` has given. -/
def fdLoad (who : Identity) (v : Vfs σ) (path : CString) (gotBuffer : Bool) :
    Option (List UInt8 × Nat) × Vfs σ :=
  let asked := vfsReadFile who v path none
  if asked.1.rc ≠ 0 then (none, asked.2)
  else
    let len := asked.1.outLen.getD 0
    if len = 0 then (some ([], 0), asked.2)
    else if !gotBuffer then (none, asked.2)
    else
      let read := vfsReadFile who asked.2 path (some len)
      if read.1.rc ≠ 0 then (none, read.2)
      else (some (read.1.out, read.1.outLen.getD len), read.2)

/-- `fd_open_file`: the descriptor and the changed thread, and the VFS. -/
def fdOpenFile (who : Identity) (t : Thread) (v : Vfs σ) (path : CString) (flags : UInt32)
    (gotBuffer : Bool) : Option (Nat × Thread) × Vfs σ :=
  match fdCreate who v path flags with
  | (none, v₁) => (none, v₁)
  | (some v₁, _) =>
      match fdLoad who v₁ path gotBuffer with
      | (none, v₂) => (none, v₂)
      | (some (buf, len), v₂) =>
          match fdAllocSlot t with
          | none => (none, v₂)
          | some i =>
              (some (i, t.setEntry i (some ⟨.file buf len, flags, 0, path.take (vfsMaxPath - 1)⟩)),
                v₂)

/-- `fd_open_dev`. -/
def fdOpenDev (dev : Devices σ) (t : Thread) (path : CString) (flags : UInt32) :
    Option (Nat × Thread) :=
  if dev.openNode (path.drop 5) then
    (fdAllocSlot t).map fun i => (i, t.setEntry i (some ⟨.dev (path.drop 5), flags, 0, []⟩))
  else none

/-- `"/dev/"`. -/
def devDir : CString := [slash, 100, 101, 118, slash]

/-- `fd_open`. -/
def fdOpen (dev : Devices σ) (who : Identity) (t : Thread) (v : Vfs σ) (path : CString)
    (flags : UInt32) (gotBuffer : Bool) : Option (Nat × Thread) × Vfs σ :=
  if path.head? ≠ some slash then (none, v)
  else if devDir.isPrefixOf path then (fdOpenDev dev t path flags, v)
  else fdOpenFile who t v path flags gotBuffer

/-- `fd_read`: from the copy, not from the file. -/
def fdRead (dev : Devices σ) (t : Thread) (fd : Int) (len : Nat) : Option (List UInt8 × Thread) :=
  match t.entry fd with
  | none => none
  | some e =>
      if !fdCanRead e then none
      else match e.kind with
      | .dev node => (dev.readNode node len).map fun out => (out, t)
      | .file buf fileLen =>
          let out := (buf.drop e.pos).take (min len (fileLen - e.pos))
          some (out, t.setEntry fd.toNat (some { e with pos := e.pos + min len (fileLen - e.pos) }))

/-- `fd_write`: the whole file is written, from a descriptor at its start. -/
def fdWrite (dev : Devices σ) (who : Identity) (t : Thread) (v : Vfs σ) (fd : Int)
    (data : List UInt8) : Option (Int × Thread) × Vfs σ :=
  match t.entry fd with
  | none => (none, v)
  | some e =>
      if !fdCanWrite e then (none, v)
      else match e.kind with
      | .dev node => ((dev.writeNode node data).map fun done => (done, t), v)
      | .file _ _ =>
          if e.pos ≠ 0 then (none, v)
          else
            let written := vfsWriteFile who v e.path data
            if written.1 ≠ 0 then (none, written.2)
            else
              (some (data.length, t.setEntry fd.toNat (some { e with pos := data.length })),
                written.2)

/-- `fd_ioctl`. -/
def fdIoctl (dev : Devices σ) (t : Thread) (fd : Int) (req : UInt64) : Int :=
  match t.entry fd with
  | some ⟨.dev node, _, _, _⟩ => dev.ioctlNode node req
  | _ => -1

/-- `fd_lseek`. -/
def fdLseek (t : Thread) (fd : Int) (offset : Int) (whence : Int) : Option (Int × Thread) :=
  match t.entry fd with
  | some ⟨.file buf fileLen, flags, pos, path⟩ =>
      let base : Option Int :=
        if whence = 0 then some 0 else if whence = 1 then some pos
        else if whence = 2 then some fileLen else none
      base.bind fun base =>
        let nv := base + offset
        if nv < 0 then none
        else
          let at_ := min nv.toNat fileLen
          some (at_, t.setEntry fd.toNat (some ⟨.file buf fileLen, flags, at_, path⟩))
  | _ => none

/-- `fd_close`. -/
def fdClose (t : Thread) (fd : Int) : Option Thread :=
  (t.entry fd).map fun _ => t.setEntry fd.toNat none

/-! ## The calls -/

/-- What launching a program depends on besides the file: the loader is ready, a module of
that name is there, a buffer for the image, the memory of a new thread, and whether the
new thread reports that it got the program running. -/
structure Launch where
  ready : Bool
  found : Bool
  gotBuffer : Bool
  gotThread : Bool
  running : Bool
  deriving DecidableEq

/-- A call and its arguments. -/
inductive Syscall
  | setUid (uid : UInt32)
  | getUid
  | getEuid
  | setGid (gid : UInt32)
  | getGid
  | setEgid (gid : UInt32)
  | getEgid
  | setGroups (groups : Option (List UInt32))
  | getGroups
  | authUser (name pass : Option CString)
  | chmod (path : Option CString) (mode : UInt32)
  | chown (path : Option CString) (owner group : UInt32)
  | stat (path : Option CString)
  | fsExists (path : Option CString)
  | fsMkdir (parent name : Option CString)
  | fsCreateFile (parent name : Option CString) (data : Option (List UInt8))
  | fsWriteFile (path : Option CString) (data : Option (List UInt8))
  | fsReadFile (path : Option CString) (out : Option (Option Nat))
  | fsListDir (path : Option CString) (maxEntries : Option Nat) (gotBuffer : Bool)
  | fsRemove (path : Option CString)
  | fsRename (oldPath newName : Option CString)
  | fsCopyFast (src dst : Option CString)
  | fsRescan
  | blkRead (drive : UInt8) (lba : UInt64) (sectors : UInt32) (outOk : Bool)
  | blkWrite (drive : UInt8) (lba : UInt64) (sectors : UInt32) (data : Option (List UInt8))
  | raw (call : RawCall) (requestOk : Bool)
  | open_ (path : Option CString) (flags : UInt32) (gotBuffer : Bool)
  | read (fd : Int) (len : Option Nat)
  | writeFd (fd : Int) (data : Option (List UInt8))
  | close (fd : Int)
  | ioctl (fd : Int) (req : UInt64) (argOk : Bool)
  | lseek (fd offset whence : Int)
  | taskAdd (path : Option CString) (launch : Launch)
  | taskAddModule (token : Option CString) (launch : Launch)
  | other

/-- What a call gives back: `rax`, and what it stores through its pointers. -/
structure Reply where
  rax : Int
  count : Option Nat
  data : List UInt8
  entries : List VfsDirent
  attr : Option Attr

/-- A reply that is a number. -/
def Reply.code (rax : Int) : Reply := ⟨rax, none, [], [], none⟩

/-- A call that only works on the VFS. -/
def Kernel.onVfs (k : Kernel σ) (result : Int × Vfs σ) : Reply × Kernel σ :=
  (.code result.1, { k with vfs := result.2 })

/-- A call that gives the current thread another identity. -/
def Kernel.assume (k : Kernel σ) (f : Thread → Thread) : Reply × Kernel σ :=
  match k.currentThread with
  | some _ => (.code 0, k.setCurrent f)
  | none => (.code (-1), k)

/-- A call on the descriptors of the current thread. -/
def Kernel.onFds (k : Kernel σ) (result : Option (Int × Thread)) : Reply × Kernel σ :=
  match result with
  | some (rax, t) => (.code rax, k.setCurrent fun old => { old with fds := t.fds })
  | none => (.code (-1), k)

/-- `module_loader_start_module_ring3`: whether it succeeds. -/
def startModule (k : Kernel σ) (launch : Launch) : Bool × Kernel σ :=
  if launch.ready && launch.found && launch.gotThread then
    match threadCreate k with
    | some k' => (launch.running, { k' with lastHelloTid := k.threads.length })
    | none => (false, k)
  else (false, k)

/-- `".elf"`. -/
def elfSuffix : CString := [46, 101, 108, 102]

/-- The largest image `module_loader_start_elf_ring3` loads. -/
def imageMax : Nat := 16 * 1024 * 1024

/-- `module_loader_start_elf_ring3`: an empty file stands for the module of its name. -/
def startElf (k : Kernel σ) (path : CString) (launch : Launch) : Bool × Kernel σ :=
  if !launch.ready then (false, k)
  else
    let asked := vfsReadFile k.identity k.vfs path none
    let len := asked.1.outLen.getD 0
    if asked.1.rc ≠ 0 ∨ len = 0 ∨ imageMax < len then
      if 4 < (leafName path).length ∧ elfSuffix.isSuffixOf (leafName path) then
        startModule { k with vfs := asked.2 } launch
      else (false, { k with vfs := asked.2 })
    else if !launch.gotBuffer then (false, { k with vfs := asked.2 })
    else
      let loaded := vfsReadFile k.identity asked.2 path (some len)
      if loaded.1.rc ≠ 0 ∨ loaded.1.outLen.getD 0 = 0 ∨ launch.gotThread = false then
        (false, { k with vfs := loaded.2 })
      else match threadCreate { k with vfs := loaded.2 } with
      | some k' => (launch.running, { k' with lastElfTid := k.threads.length })
      | none => (false, { k with vfs := loaded.2 })

/-- `syscall_int80_dispatch`. -/
def dispatch (dev : Devices σ) (k : Kernel σ) : Syscall → Reply × Kernel σ
  | .setUid uid => k.assume fun t => { t with uid := uid }
  | .getUid => (.code k.identity.uid.toNat, k)
  | .getEuid => (.code ((k.currentThread.map Thread.euid).getD 0).toNat, k)
  | .setGid gid => k.assume fun t => { t with gid := gid }
  | .getGid => (.code k.identity.gid.toNat, k)
  | .setEgid gid => k.assume fun t => { t with egid := gid }
  | .getEgid => (.code ((k.currentThread.map Thread.egid).getD 0).toNat, k)
  | .setGroups none => (.code (-1), k)
  | .setGroups (some groups) => k.assume fun t => { t with groups := groups.take userMaxGroups }
  | .getGroups => (.code ((k.currentThread.map fun t => (t.groups.length : Int)).getD (-1)), k)
  | .authUser (some name) (some pass) => (.code (if sysAuthUser k.users name pass then 0 else -1), k)
  | .authUser _ _ => (.code (-1), k)
  | .chmod (some path) mode => k.onVfs (vfsChmod k.identity k.vfs path mode.toUInt16)
  | .chmod none _ => (.code (-1), k)
  | .chown (some path) owner group => k.onVfs (vfsChown k.identity k.vfs path owner group)
  | .chown none _ _ => (.code (-1), k)
  | .stat (some path) =>
      match vfsGetattr k.vfs path with
      | none => (.code (-1), k)
      | some a =>
          let sized := vfsReadFile k.identity k.vfs path none
          (⟨0, some (sized.1.outLen.getD 0), [], [], some a⟩, { k with vfs := sized.2 })
  | .stat none => (.code (-1), k)
  | .fsExists path =>
      (.code (if path.any fun path => vfsExists k.vfs path ≠ 0 then 1 else 0), k)
  | .fsMkdir (some parent) (some name) => k.onVfs (fsMkdir k.identity k.vfs parent name)
  | .fsMkdir _ _ => (.code (-1), k)
  | .fsCreateFile (some parent) (some name) (some data) =>
      k.onVfs (fsCreateFile k.identity k.vfs parent name data)
  | .fsCreateFile _ _ _ => (.code (-1), k)
  | .fsWriteFile (some path) (some data) => k.onVfs (vfsWriteFile k.identity k.vfs path data)
  | .fsWriteFile _ _ => (.code (-1), k)
  | .fsReadFile (some path) (some out) =>
      let read := vfsReadFile k.identity k.vfs path out
      (⟨read.1.rc, some (read.1.outLen.getD 0), read.1.out, [], none⟩, { k with vfs := read.2 })
  | .fsReadFile _ _ => (.code (-1), k)
  | .fsListDir (some path) (some maxEntries) gotBuffer =>
      if maxEntries ≠ 0 ∧ gotBuffer = false then (.code (-1), k)
      else
        let listed := vfsListDir k.identity k.vfs path (maxEntries ≠ 0) (min maxEntries 64)
        (⟨listed.1.rc, some (listed.1.outCount.getD 0), [],
            if listed.1.rc = 0 then listed.1.out else [], none⟩, { k with vfs := listed.2 })
  | .fsListDir _ _ _ => (.code (-1), k)
  | .fsRemove (some path) => k.onVfs (fsRemove k.identity k.vfs path)
  | .fsRemove none => (.code (-1), k)
  | .fsRename (some oldPath) (some newName) => k.onVfs (fsRename k.identity k.vfs oldPath newName)
  | .fsRename _ _ => (.code (-1), k)
  | .fsCopyFast (some src) (some dst) => k.onVfs (fsCopyFileFast dev k.identity k.vfs src dst)
  | .fsCopyFast _ _ => (.code (-1), k)
  | .fsRescan => (.code 0, { k with vfs := fsRescanStorage dev k.identity k.vfs })
  | .blkRead drive lba sectors true =>
      let read := fsBlockRead dev k.identity k.vfs drive lba sectors
      (⟨read.1.1, none, read.1.2, [], none⟩, { k with vfs := read.2 })
  | .blkRead _ _ _ false => (.code (-1), k)
  | .blkWrite drive lba sectors (some data) =>
      k.onVfs (fsBlockWrite dev k.identity k.vfs drive lba sectors data)
  | .blkWrite _ _ _ none => (.code (-1), k)
  | .raw call true => k.onVfs (fsRaw dev k.identity k.vfs call)
  | .raw _ false => (.code (-1), k)
  | .open_ (some path) flags gotBuffer =>
      match k.currentThread with
      | none => (.code (-1), k)
      | some t =>
          let opened := fdOpen dev k.identity t k.vfs path flags gotBuffer
          { k with vfs := opened.2 }.onFds (opened.1.map fun (r : Nat × Thread) => (Int.ofNat r.1, r.2))
  | .open_ none _ _ => (.code (-1), k)
  | .read fd (some len) =>
      match k.currentThread.bind fun t => fdRead dev t fd len with
      | none => (.code (-1), k)
      | some (out, t) =>
          (⟨out.length, none, out, [], none⟩, k.setCurrent fun old => { old with fds := t.fds })
  | .read _ none => (.code (-1), k)
  | .writeFd fd (some data) =>
      match k.currentThread with
      | none => (.code (-1), k)
      | some t =>
          let written := fdWrite dev k.identity t k.vfs fd data
          { k with vfs := written.2 }.onFds written.1
  | .writeFd _ none => (.code (-1), k)
  | .close fd => k.onFds ((k.currentThread.bind fun t => fdClose t fd).map fun t => (0, t))
  | .ioctl fd req true =>
      (.code ((k.currentThread.map fun t => fdIoctl dev t fd req).getD (-1)), k)
  | .ioctl _ _ false => (.code (-1), k)
  | .lseek fd offset whence => k.onFds (k.currentThread.bind fun t => fdLseek t fd offset whence)
  | .taskAdd (some path) launch =>
      if path = [] then (.code (-1), k)
      else
        let started := startElf k path launch
        (.code (if started.1 then started.2.lastElfTid else -1), started.2)
  | .taskAdd none _ => (.code (-1), k)
  | .taskAddModule (some token) launch =>
      if token = [] then (.code (-1), k)
      else
        let started := startModule k launch
        (.code (if started.1 then started.2.lastHelloTid else -1), started.2)
  | .taskAddModule none _ => (.code (-1), k)
  | .other => (.code 0, k)

/-- One call, made by the thread `tid`. -/
def step (dev : Devices σ) (k : Kernel σ) (a : Nat × Syscall) : Kernel σ :=
  (dispatch dev { k with current := a.1 } a.2).2

end NTux.Sys
