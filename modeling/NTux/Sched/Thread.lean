import NTux.Lib.IntrusiveQueue
import Mathlib.Algebra.Group.Nat.Defs

/-!
# Threads and the scheduler

The thread table of `sched/thread.c`, the ready queue and the scheduler core of
`sched/scheduler.c`, and the sections of other files that change the state of a
thread: the two that block it (`INT80_WAIT_TICKS`, `network_thread_block`) and the
part of `timer_handler` that wakes it.  Each function here runs with the thread lock
held or with interrupts off.

A pointer to a thread is the thread's index in `thread_list`, which is its `id`; ids
are never given out twice.  The link fields of a thread are part of the queue they
belong to.  `current_thread_id` is `none` for `-1`.
-/

namespace NTux.Sched

open NTux.Lib

/-- `thread_state_t`. -/
inductive ThreadState
  | running
  | ready
  | blocked
  | terminated
  deriving DecidableEq

/-- `MAX_THREADS`. -/
def maxThreads : Nat := 1024

/-- `TIME_SLICE_DEFAULT`. -/
def timeSliceDefault : Int := 8

/-- The stack a context runs on: the one the kernel was started with, the exit stack of
`isr.c`, or the stack of a thread. -/
inductive Stack
  | boot
  | isrExit
  | thread (tid : Nat)
  deriving DecidableEq

/-- What a call of `scheduler()` returns to. -/
inductive Resume
  | network
  | wait (tid : Option Nat) (wake : Nat)
  | yieldLoop
  | exitLoop
  deriving DecidableEq

/-- Where a context stands in the code: in code of its own, before a call of
`scheduler()`, in `scheduler()` between the unlock and the switch, behind the call, or
in the endless loop of `thread_exit_current`. -/
inductive Phase
  | running
  | calling (k : Resume)
  | switching (old : Option Nat) (next : Nat) (k : Resume)
  | returned (k : Resume)
  | halted
  deriving DecidableEq

/-- A context: what a saved `rsp` stands for. -/
structure Context where
  stack : Stack
  phase : Phase
  deriving DecidableEq

/-- `thread_t`, without its links. -/
structure Thread where
  state : ThreadState
  rsp : Context
  wakeTick : Nat
  quantum : Int
  cpuTicks : Nat

/-- The statics of `thread.c` and `scheduler.c`. -/
structure SchedState where
  threadList : Nat → Option Thread
  currentThreadId : Option Nat
  nextThreadId : Nat
  blockedCount : Nat
  rq : IntrusiveQueue Nat
  rqCount : Int
  wakeList : IntrusiveQueue Nat

/-- The state after `thread_init`. -/
def threadInit : SchedState where
  threadList _ := none
  currentThreadId := none
  nextThreadId := 0
  blockedCount := 0
  rq := .empty
  rqCount := 0
  wakeList := .empty

namespace SchedState

variable (s : SchedState)

/-- Store into the fields of a thread. -/
def modify (t : Nat) (f : Thread → Thread) : SchedState :=
  { s with threadList := Function.update s.threadList t ((s.threadList t).map f) }

/-- `t->state = state`. -/
def setState (t : Nat) (state : ThreadState) : SchedState :=
  s.modify t fun th => { th with state := state }

end SchedState

/-! ## The queues -/

/-- `wake_list_add`. -/
def wakeListAdd (s : SchedState) (t : Nat) : SchedState := { s with wakeList := s.wakeList.add t }

/-- `wake_list_remove`. -/
def wakeListRemove (s : SchedState) (t : Nat) : SchedState :=
  { s with wakeList := s.wakeList.remove t }

/-- `rq_enqueue`. -/
def rqEnqueue (s : SchedState) (t : Nat) : SchedState :=
  if s.rq.queued t then s else { s with rq := s.rq.add t, rqCount := s.rqCount + 1 }

/-- `rq_dequeue`. -/
def rqDequeue (s : SchedState) : Option (Nat × SchedState) :=
  s.rq.pop.map fun (t, rq) => (t, { s with rq := rq, rqCount := s.rqCount - 1 })

/-- `rq_remove`. -/
def rqRemove (s : SchedState) (t : Nat) : SchedState :=
  if s.rq.queued t then { s with rq := s.rq.remove t, rqCount := s.rqCount - 1 } else s

/-! ## Threads -/

/-- A thread as `thread_init_common` leaves it. -/
def threadInitCommon (tid : Nat) : Thread where
  state := .ready
  rsp := ⟨.thread tid, .running⟩
  wakeTick := 0
  quantum := timeSliceDefault
  cpuTicks := 0

/-- `thread_create`; `gotThread` and `gotStack` say whether the two allocations
succeed.  The id is used up even if the second one fails. -/
def threadCreate (s : SchedState) (gotThread gotStack : Bool) : Int × SchedState :=
  if maxThreads ≤ s.nextThreadId then (-1, s)
  else if !gotThread then (-1, s)
  else
    let tid := s.nextThreadId
    let s := { s with nextThreadId := tid + 1 }
    if !gotStack then (-1, s)
    else
      let s := { s with
        threadList := Function.update s.threadList tid (some (threadInitCommon tid))
        rq := s.rq.reset tid
        wakeList := s.wakeList.reset tid }
      (tid, rqEnqueue s tid)

/-- The body of the loop of `thread_reap_terminated`. -/
def reapOne (s : SchedState) (i : Nat) : SchedState :=
  match s.threadList i with
  | none => s
  | some t =>
      if t.state ≠ .terminated then s
      else if s.currentThreadId = some i then s
      else
        let s := rqRemove s i
        { s with threadList := Function.update s.threadList i none }

/-- `thread_reap_terminated`. -/
def threadReapTerminated (s : SchedState) : SchedState :=
  (List.range maxThreads).foldl reapOne s

/-- `thread_kill`; a negative argument is refused like one past the table. -/
def threadKill (s : SchedState) (tid : Nat) : Int × SchedState :=
  if maxThreads ≤ tid then (-1, s)
  else
    match s.threadList tid with
    | none => (-1, s)
    | some t =>
        let s := if t.state = .blocked ∧ 0 < s.blockedCount then
          { s with blockedCount := s.blockedCount - 1 } else s
        (0, (rqRemove (wakeListRemove s tid) tid).setState tid .terminated)

/-- The locked section of `thread_exit_current`. -/
def threadExitSection (s : SchedState) : SchedState :=
  match s.currentThreadId with
  | none => s
  | some tid =>
      match s.threadList tid with
      | none => s
      | some _ => (rqRemove s tid).setState tid .terminated

/-! ## Blocking and waking -/

/-- What both blocking sections do to a thread that is not blocked yet. -/
def markBlocked (s : SchedState) (tid : Nat) : SchedState :=
  let s := rqRemove (s.setState tid .blocked) tid
  wakeListAdd { s with blockedCount := s.blockedCount + 1 } tid

/-- `get_tick_count() + ticks`, a `uint64_t`, at the tick `now`. -/
def tickAfter (now ticks : Nat) : Nat := (now + ticks) % 2 ^ 64

/-- The first locked section of `INT80_WAIT_TICKS`; it sets the wake tick even of a
thread that is blocked. -/
def waitTicksSection (s : SchedState) (wake : Nat) : SchedState :=
  match s.currentThreadId with
  | none => s
  | some tid =>
      match s.threadList tid with
      | none => s
      | some t =>
          let s := s.modify tid fun t => { t with wakeTick := wake }
          if t.state ≠ .blocked then markBlocked s tid else s

/-- The locked section of `network_thread_block`. -/
def networkBlockSection (s : SchedState) (now : Nat) : SchedState :=
  match s.currentThreadId with
  | none => s
  | some tid =>
      match s.threadList tid with
      | none => s
      | some t =>
          if t.state ≠ .blocked then
            markBlocked (s.modify tid fun t => { t with wakeTick := tickAfter now 1 }) tid
          else s

/-- The end of `INT80_WAIT_TICKS`, once its loop is over. -/
def waitTicksEnd (s : SchedState) (tid : Nat) : SchedState :=
  let s := (wakeListRemove s tid).modify tid fun t => { t with state := .running, wakeTick := 0 }
  { rqRemove s tid with currentThreadId := some tid }

/-- The body of the wake loop of `timer_handler`. -/
def timerWakeOne (s : SchedState) (now : Nat) (t : Nat) : SchedState :=
  match s.threadList t with
  | none => s
  | some th =>
      if th.state = .blocked ∧ 0 < th.wakeTick ∧ th.wakeTick ≤ now then
        let s := s.modify t fun th => { th with state := .ready, wakeTick := 0 }
        let s := wakeListRemove (rqEnqueue s t) t
        if 0 < s.blockedCount then { s with blockedCount := s.blockedCount - 1 } else s
      else s

/-- The wake loop of `timer_handler`.  A walk of more steps than there can be threads
has met one twice. -/
def timerWakeLoop (now : Nat) : Nat → SchedState → Option Nat → SchedState
  | 0, s, _ => s
  | _, s, none => s
  | fuel + 1, s, some t =>
      let next := s.wakeList.next t
      timerWakeLoop now fuel (timerWakeOne s now t) next

/-- The first part of `timer_handler`. -/
def timerWake (s : SchedState) (now : Nat) : SchedState :=
  timerWakeLoop now (maxThreads + 1) s s.wakeList.head

/-! ## The scheduler -/

/-- What `schedule_core` returns: the state, the thread to suspend, and the thread to
switch to, if any. -/
structure ScheduleOutcome where
  sched : SchedState
  old : Option Nat
  switchTo : Option Nat

/-- The pointer `old` of `schedule_core`. -/
def oldThread (s : SchedState) : Option Nat :=
  s.currentThreadId.filter fun tid => (s.threadList tid).isSome

/-- `schedule_core` puts the current thread back on the queue if it is running. -/
def requeueOld (s : SchedState) : SchedState :=
  match s.currentThreadId with
  | none => s
  | some tid =>
      match s.threadList tid with
      | some t => if t.state = .running then rqEnqueue (s.setState tid .ready) tid else s
      | none => s

/-- `schedule_core`. -/
def scheduleCore (s : SchedState) : ScheduleOutcome :=
  let s := threadReapTerminated s
  let oldId := s.currentThreadId
  let old := oldThread s
  match rqDequeue (requeueOld s) with
  | none => ⟨{ requeueOld s with currentThreadId := none }, none, none⟩
  | some (next, s) =>
      if oldId = some next then
        ⟨s.modify next fun t => { t with state := .running, quantum := timeSliceDefault },
          none, none⟩
      else
        let s := s.modify next fun t =>
          { t with state := .running
                   quantum := if t.quantum ≤ 0 then timeSliceDefault else t.quantum }
        ⟨{ s with currentThreadId := some next }, old, some next⟩

end NTux.Sched
