import NTux.Sched.Thread
import NTux.Lib.Runs

/-!
# The CPU and its threads

The scheduler together with the one CPU that runs it: the state of the scheduler and
the context the CPU executes, a stack and a place in the code.  `switch_context`
stores the executing context in the thread that is suspended and loads the stored
one of the thread that is resumed, whatever that is.

System calls run with interrupts enabled, so a timer interrupt may arrive between any
two actions, also after `scheduler()` has released the lock and before it switches;
one that arrives while the lock is held only counts the tick (`timerLocked`).  An
action that the executing code cannot take where it stands changes nothing.
-/

namespace NTux.Sched

open NTux.Lib

/-- The scheduler's statics and the context the CPU executes. -/
structure Machine where
  sched : SchedState
  cpu : Context

/-- The store of `switch_context`: the context goes to the old thread, or to a variable
nobody reads.  `after` is where it stands when it is resumed. -/
def storeContext (m : Machine) (old : Option Nat) (after : Phase) : SchedState :=
  match old with
  | some o => m.sched.modify o fun t => { t with rsp := ⟨m.cpu.stack, after⟩ }
  | none => m.sched

/-- `switch_context(&old->rsp, next->rsp)`. -/
def switchContext (m : Machine) (old : Option Nat) (next : Nat) (after : Phase) : Machine :=
  let sched := storeContext m old after
  match sched.threadList next with
  | some t => ⟨sched, t.rsp⟩
  | none => ⟨sched, m.cpu⟩

/-- `scheduler()` up to the switch. -/
def schedulerCall (m : Machine) (k : Resume) : Machine :=
  let r := scheduleCore m.sched
  match r.switchTo with
  | some next => ⟨r.sched, ⟨m.cpu.stack, .switching r.old next k⟩⟩
  | none => ⟨r.sched, ⟨m.cpu.stack, .returned k⟩⟩

/-- `scheduler_from_irq`: no interrupt can arrive before the switch. -/
def schedulerFromIrq (m : Machine) : Machine :=
  let r := scheduleCore m.sched
  match r.switchTo with
  | some next => switchContext { m with sched := r.sched } r.old next m.cpu.phase
  | none => { m with sched := r.sched }

/-- The thread whose quantum `timer_handler` counts down. -/
def timedThread (s : SchedState) : Option Nat :=
  s.currentThreadId.filter fun tid => (s.threadList tid).any fun t => t.state = .running

/-- `cpu_ticks++` and `quantum--`. -/
def countTick (s : SchedState) (tid : Nat) : SchedState :=
  s.modify tid fun t => { t with cpuTicks := t.cpuTicks + 1, quantum := t.quantum - 1 }

/-- Whether the quantum of a thread is used up. -/
def quantumUsed (s : SchedState) (tid : Nat) : Bool :=
  (s.threadList tid).any fun t => t.quantum ≤ 0

/-- `timer_handler`, the lock being free, at the tick `now`. -/
def timerHandler (m : Machine) (now : Nat) : Machine :=
  let s := timerWake m.sched now
  match timedThread s with
  | none => { m with sched := s }
  | some tid =>
      let s := countTick s tid
      if quantumUsed s tid then schedulerFromIrq { m with sched := s } else { m with sched := s }

/-- `timer_handler` while the interrupted code holds the lock. -/
def timerHandlerLocked (m : Machine) : Machine :=
  match timedThread m.sched with
  | none => m
  | some tid => { m with sched := countTick m.sched tid }

/-- What follows a call of `scheduler()`, at the tick `now`. -/
def afterScheduler (m : Machine) (k : Resume) (now : Nat) : Machine :=
  match k with
  | .network => { m with cpu.phase := .running }
  | .yieldLoop =>
      { m with cpu.phase := if m.sched.currentThreadId.isSome then .running else .calling k }
  | .exitLoop =>
      { m with cpu.phase := if m.sched.currentThreadId.isSome then .halted else .calling k }
  | .wait tid wake =>
      match tid with
      | none => { m with cpu.phase := .running }
      | some tid =>
          match m.sched.threadList tid with
          | none => { m with cpu.phase := .running }
          | some t =>
              if t.state = .blocked ∧ now < wake then m
              else ⟨waitTicksEnd m.sched tid, { m.cpu with phase := .running }⟩

/-- An action of the executing code, or a timer interrupt. -/
inductive Action
  | create (gotThread gotStack : Bool)
  | kill (tid : Nat)
  | yield
  | waitTicks (now ticks : Nat)
  | networkBlock (now : Nat)
  | exit
  | fault
  | schedule
  | switch
  | proceed (now : Nat)
  | timer (now : Nat)
  | timerLocked

/-- Actions of code in a context of its own. -/
def runningStep (m : Machine) : Action → Machine
  | .create gotThread gotStack =>
      { m with sched := (threadCreate m.sched gotThread gotStack).2 }
  | .kill tid => { m with sched := (threadKill m.sched tid).2 }
  | .yield => { m with cpu.phase := .calling .yieldLoop }
  | .waitTicks now ticks =>
      if ticks = 0 then m
      else
        ⟨waitTicksSection m.sched (tickAfter now ticks),
          ⟨m.cpu.stack, .calling (.wait m.sched.currentThreadId (tickAfter now ticks))⟩⟩
  | .networkBlock now =>
      ⟨networkBlockSection m.sched now, ⟨m.cpu.stack, .calling .network⟩⟩
  | .exit => ⟨threadExitSection m.sched, ⟨m.cpu.stack, .calling .exitLoop⟩⟩
  | .fault =>
      -- only a fault of a thread ends here; any other one stops the machine
      if (oldThread m.sched).isSome then
        ⟨threadExitSection m.sched, ⟨.isrExit, .calling .exitLoop⟩⟩
      else { m with cpu.phase := .halted }
  | _ => m

/-- One action. -/
def machineStep (m : Machine) (a : Action) : Machine :=
  match a with
  | .timer now => timerHandler m now
  | .timerLocked => timerHandlerLocked m
  | a =>
      match m.cpu.phase, a with
      | .running, a => runningStep m a
      | .calling k, .schedule => schedulerCall m k
      | .switching old next k, .switch => switchContext m old next (.returned k)
      | .returned k, .proceed now => afterScheduler m k now
      | _, _ => m

/-- The machine after `thread_init`, in the code that started the kernel. -/
def bootMachine : Machine := ⟨threadInit, ⟨.boot, .running⟩⟩

end NTux.Sched
