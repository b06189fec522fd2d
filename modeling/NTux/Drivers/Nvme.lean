import Mathlib.Logic.Function.Basic
import Mathlib.Algebra.Group.Nat.Defs

/-!
# The NVMe queues

`nvme_submit_and_wait` and `nvme_rw_internal` of `drivers/nvme/nvme.c` with the device at the
other end of the queue.  The device completes the commands in their order, each once, and posts
a completion with the phase of its round; a schedule says what it has posted before each look at
the completion queue.

The numbers of the commands and the list of the completions posted are history: the driver sees
neither.
-/

namespace NTux.Drivers

/-- `nvme_cmd_t`, without what is always zero. -/
structure NvmeCmd where
  opc : Nat
  cid : Nat
  nsid : Nat
  prp1 : Nat
  cdw10 : Nat
  cdw11 : Nat
  cdw12 : Nat

/-- `nvme_cqe_t` as far as it is read. -/
structure NvmeCqe where
  cid : Nat
  status : Nat

/-- A command the device has not completed: its number in the history, and what it was given. -/
structure Pending where
  number : Nat
  cmd : NvmeCmd

/-- A queue of a controller, the device, and the history. -/
structure NvmeSys where
  depth : Nat
  sq : Nat → NvmeCmd
  sqTail : Nat
  cq : Nat → NvmeCqe
  cqHead : Nat
  cqPhase : Nat
  nextCid : Nat
  pending : List Pending
  cqTail : Nat
  tailPhase : Nat
  submitted : Nat
  completed : List (Nat × Nat)

/-- `NVME_TIMEOUT_SPINS`. -/
def nvmeTimeoutSpins : Nat := 2000000

/-- `NVME_PAGE_SIZE`. -/
def nvmePageSize : Nat := 4096

/-- `nvme_controller_init`, with zeroed rings. -/
def nvmeInit (depth : Nat) : NvmeSys where
  depth := depth
  sq _ := ⟨0, 0, 0, 0, 0, 0, 0⟩
  sqTail := 0
  cq _ := ⟨0, 0⟩
  cqHead := 0
  cqPhase := 1
  nextCid := 1
  pending := []
  cqTail := 0
  tailPhase := 1
  submitted := 0
  completed := []

/-! ## The device -/

/-- The device posts the completion of its oldest command, unless the ring is full. -/
def devicePost (status : Nat) (s : NvmeSys) : NvmeSys :=
  match s.pending with
  | [] => s
  | p :: rest =>
      if (s.cqTail + 1) % s.depth = s.cqHead then s
      else
        let tail := (s.cqTail + 1) % s.depth
        { s with
          pending := rest
          cq := Function.update s.cq s.cqTail ⟨p.cmd.cid, (2 * status + s.tailPhase) % 65536⟩
          cqTail := tail
          tailPhase := if tail = 0 then 1 - s.tailPhase else s.tailPhase
          completed := s.completed ++ [(p.number, status)] }

/-- It posts completions with these status fields. -/
def devicePosts (statuses : List Nat) (s : NvmeSys) : NvmeSys :=
  statuses.foldl (fun s status => devicePost status s) s

/-- The status code of a status field. -/
def statusCode (status : Nat) : Nat := status % 256

/-- The type of the status code. -/
def statusCodeType (status : Nat) : Nat := status / 256 % 8

/-! ## The driver -/

/-- What the device posts before each look at the completion queue. -/
abbrev Schedule := Nat → List Nat

/-- The entry at the head is taken. -/
def consume (s : NvmeSys) : NvmeSys :=
  let head := (s.cqHead + 1) % s.depth
  { s with
    cqHead := head
    cqPhase := if head = 0 then 1 - s.cqPhase else s.cqPhase }

/-- The loop of `nvme_submit_and_wait`, with `n` looks left, the next one number `i`. -/
def nvmePoll (sch : Schedule) (cid : Nat) : Nat → Nat → NvmeSys → Int × NvmeSys
  | 0, _, s => (-3, s)
  | n + 1, i, s =>
      let s := devicePosts (sch i) s
      let cqe := s.cq s.cqHead
      if cqe.status % 2 ≠ s.cqPhase ∨ cqe.cid ≠ cid then nvmePoll sch cid n (i + 1) s
      else (if cqe.status / 2 % 256 = 0 then 0 else -2, consume s)

/-- The command is in the submission queue, and the device has been told. -/
def submit (s : NvmeSys) (cmd : NvmeCmd) : NvmeSys :=
  let cmd := { cmd with cid := s.nextCid }
  { s with
    sq := Function.update s.sq s.sqTail cmd
    sqTail := (s.sqTail + 1) % s.depth
    nextCid := (s.nextCid + 1) % 65536
    pending := s.pending ++ [⟨s.submitted, cmd⟩]
    submitted := s.submitted + 1 }

/-- `nvme_submit_and_wait`. -/
def nvmeSubmitAndWait (s : NvmeSys) (cmd : NvmeCmd) (sch : Schedule) : Int × NvmeSys :=
  if s.depth = 0 then (-1, s)
  else nvmePoll sch s.nextCid nvmeTimeoutSpins 0 (submit s cmd)

/-- `nvme_ns_entry_t` as far as it is read. -/
structure NvmeNs where
  present : Bool
  nsid : Nat
  lbaSize : Nat
  sectors512 : Nat

/-- The command of the chunk `k`, of at most `most` blocks, of a transfer of `left` blocks. -/
def rwCommand (ns : NvmeNs) (write : Bool) (page lba left most k : Nat) : NvmeCmd where
  opc := if write then 1 else 2
  cid := 0
  nsid := ns.nsid
  prp1 := page
  cdw10 := (lba + k * most) % 4294967296
  cdw11 := (lba + k * most) / 4294967296 % 4294967296
  cdw12 := (min most (left - k * most) - 1) % 65536

/-- The loop of `nvme_rw_internal` over its commands; the first is number `k`. -/
def rwLoop (schedules : Nat → Schedule) : Nat → List NvmeCmd → NvmeSys → Int × NvmeSys
  | _, [], s => (0, s)
  | k, cmd :: rest, s =>
      match nvmeSubmitAndWait s cmd (schedules k) with
      | (rc, s) => if rc ≠ 0 then (-6, s) else rwLoop schedules (k + 1) rest s

/-- The commands of a transfer. -/
def rwCommands (ns : NvmeNs) (write : Bool) (page lba512 count : Nat) : List NvmeCmd :=
  let factor := ns.lbaSize / 512
  let most := nvmePageSize / ns.lbaSize
  let left := count / factor
  (List.range ((left + most - 1) / most)).map
    (rwCommand ns write page (lba512 / factor) left most)

/-- `nvme_rw_internal`; `page` is what `pmm_alloc_page` returns.  The page that has been given
back is returned, and the state it is given back in. -/
def nvmeRwInternal (s : NvmeSys) (ns : NvmeNs) (write : Bool) (page lba512 count : Nat)
    (schedules : Nat → Schedule) : Int × Option Nat × NvmeSys :=
  let factor := ns.lbaSize / 512
  if !ns.present ∨ count = 0 then (-1, none, s)
  else if factor = 0 ∨ lba512 % factor ≠ 0 ∨ count % factor ≠ 0 then (-2, none, s)
  else if ns.sectors512 < (lba512 + count) % 2 ^ 64 then (-3, none, s)
  else if page = 0 then (-4, none, s)
  else if nvmePageSize / ns.lbaSize = 0 then (-5, some page, s)
  else
    match rwLoop schedules 0 (rwCommands ns write page lba512 count) s with
    | (rc, s) => (rc, some page, s)

end NTux.Drivers
