import NTux.Sched.QueueInv

/-!
# The ready queue along every run

`ReadyQueueOk` is what a reader of the scheduler expects of the ready queue.  It holds
after every action of every run (`ready_queue_along_run`): every action keeps
`QueueOk`, where the current thread is free of the queues unless the executing code
stands behind a section that blocks it and before its call of `scheduler()`
(`Phase.blocking`).  There a timer interrupt may already have woken the thread and
queued it again, and the thread, marked ready, runs on until the call.
-/

namespace NTux.Sched

open NTux.Lib

/-- Between a section that blocks the current thread and the call of `scheduler()`. -/
def Phase.blocking : Phase → Bool
  | .calling .network => true
  | .calling (.wait _ _) => true
  | _ => false

/-- The ready queue is a doubly linked list without duplicates, counted by `rq_count`;
its threads are the flagged ones; they are all ready, so none of them is running; and
the current thread is not one of them, except where it has just been blocked. -/
structure ReadyQueueOk (m : Machine) (l : List Nat) : Prop where
  linked : Dll m.sched.rq.next m.sched.rq.prev m.sched.rq.head m.sched.rq.tail l
  nodup : l.Nodup
  count : m.sched.rqCount = l.length
  flagged : ∀ t, m.sched.rq.queued t = true ↔ t ∈ l
  ready : ∀ t ∈ l, ∃ th, m.sched.threadList t = some th ∧ th.state = .ready
  notRunning : ∀ t th, m.sched.threadList t = some th → th.state = .running → t ∉ l
  notCurrent : ∀ t, m.cpu.phase.blocking = false → m.sched.currentThreadId = some t → t ∉ l

/-- The queues of the machine are well formed. -/
def MachineQueueOk (m : Machine) : Prop := QueueOk m.sched (m.cpu.phase.blocking = false)

theorem MachineQueueOk.readyQueue {m : Machine} (ok : MachineQueueOk m) :
    ∃ l, ReadyQueueOk m l := by
  obtain ⟨l, w, inv, free⟩ := ok
  refine ⟨l, inv.ready.links, inv.ready.nodup, inv.count, inv.ready.flags, inv.readyState,
    fun t th eq running => inv.not_ready eq (by simp [running]), fun t phase current => ?_⟩
  exact (free phase t current).1

/-- Where the current thread is free of the queues, the phase does not matter. -/
theorem machineQueueOk_of_free {m : Machine} (ok : QueueOk m.sched True) : MachineQueueOk m :=
  ok.imp fun _ => trivial

theorem QueueOk.modify_same {s : SchedState} {free : Prop} {f : Thread → Thread}
    (ok : QueueOk s free) (t : Nat) (same : ∀ th, (f th).state = th.state) :
    QueueOk (s.modify t f) free := by
  obtain ⟨l, w, inv, current⟩ := ok
  refine ⟨l, w, inv.modify_same same, fun h => (current h).modify fun th blocked => ?_⟩
  rwa [same] at blocked

/-! ## The actions -/

section Actions

variable {m : Machine}

/-- A switch only stores and loads contexts. -/
theorem switchContext_queueOk {free : Prop} (ok : QueueOk m.sched free) (old : Option Nat)
    (next : Nat) (after : Phase) : QueueOk (switchContext m old next after).sched free := by
  have stored : QueueOk (storeContext m old after) free := by
    cases old with
    | none => exact ok
    | some o => exact ok.modify_same o fun _ => rfl
  unfold switchContext
  dsimp only
  split <;> exact stored

theorem schedulerCall_queueOk (ok : MachineQueueOk m) (k : Resume) :
    QueueOk (schedulerCall m k).sched True := by
  have scheduled := scheduleCore_queueOk ok
  unfold schedulerCall
  generalize scheduleCore m.sched = r at scheduled ⊢
  dsimp only
  split <;> exact scheduled

theorem schedulerFromIrq_queueOk (ok : MachineQueueOk m) :
    QueueOk (schedulerFromIrq m).sched True := by
  have scheduled := scheduleCore_queueOk ok
  unfold schedulerFromIrq
  generalize scheduleCore m.sched = r at scheduled ⊢
  dsimp only
  split
  · exact switchContext_queueOk (m := ⟨_, m.cpu⟩) scheduled _ _ _
  · exact scheduled

theorem timerHandler_queueOk (ok : MachineQueueOk m) (now : Nat) :
    MachineQueueOk (timerHandler m now) := by
  have woken := timerWake_queueOk ok now
  unfold timerHandler
  dsimp only
  split
  · exact woken
  next tid _ =>
    have counted : QueueOk (countTick (timerWake m.sched now) tid)
        (m.cpu.phase.blocking = false) := woken.modify_same tid fun _ => rfl
    split
    · exact machineQueueOk_of_free (schedulerFromIrq_queueOk (m := ⟨_, m.cpu⟩) counted)
    · exact counted

theorem timerHandlerLocked_queueOk (ok : MachineQueueOk m) :
    MachineQueueOk (timerHandlerLocked m) := by
  unfold timerHandlerLocked
  split
  · exact ok
  · exact ok.modify_same _ fun _ => rfl

theorem afterScheduler_queueOk (ok : QueueOk m.sched True) (k : Resume) (now : Nat) :
    QueueOk (afterScheduler m k now).sched True := by
  cases k with
  | network => exact ok
  | yieldLoop => exact ok
  | exitLoop => exact ok
  | wait tid wake =>
      unfold afterScheduler
      cases tid with
      | none => exact ok
      | some tid =>
          cases eq : m.sched.threadList tid with
          | none => simpa only [eq] using ok
          | some t =>
              simp only [eq]
              split
              · exact ok
              · exact waitTicksEnd_queueOk ok eq

/-- Only the two blocking actions leave the current thread on a queue, and only they
lead to a call of `scheduler()` behind a blocking section. -/
theorem runningStep_queueOk (ok : QueueOk m.sched True) (a : Action) :
    MachineQueueOk (runningStep m a) := by
  cases a with
  | create gotThread gotStack =>
      exact machineQueueOk_of_free (threadCreate_queueOk ok gotThread gotStack)
  | kill tid => exact machineQueueOk_of_free (threadKill_queueOk ok tid)
  | waitTicks now ticks =>
      unfold runningStep
      dsimp only
      split
      · exact machineQueueOk_of_free ok
      · exact (waitTicksSection_queueOk ok _).imp fun phase => Bool.noConfusion phase
  | networkBlock now =>
      exact (networkBlockSection_queueOk ok now).imp fun phase => Bool.noConfusion phase
  | exit => exact machineQueueOk_of_free (threadExitSection_queueOk ok)
  | fault =>
      unfold runningStep
      dsimp only
      split
      · exact machineQueueOk_of_free (threadExitSection_queueOk ok)
      · exact machineQueueOk_of_free ok
  | _ => exact machineQueueOk_of_free ok

/-- Every action keeps the queues well formed. -/
theorem machineStep_queueOk (ok : MachineQueueOk m) (a : Action) :
    MachineQueueOk (machineStep m a) := by
  -- in any phase but the blocking ones the current thread is free of the queues
  have free : m.cpu.phase.blocking = false → QueueOk m.sched True := fun phase =>
    ok.imp fun _ => phase
  unfold machineStep
  split
  next now => exact timerHandler_queueOk ok now
  next => exact timerHandlerLocked_queueOk ok
  next =>
    split
    next phase _ _ => exact runningStep_queueOk (free (by rw [phase]; rfl)) _
    next k phase _ _ => exact machineQueueOk_of_free (schedulerCall_queueOk ok k)
    next old next k phase _ _ =>
      exact machineQueueOk_of_free
        (switchContext_queueOk (free (by rw [phase]; rfl)) old next (.returned k))
    next k now phase _ _ =>
      exact machineQueueOk_of_free (afterScheduler_queueOk (free (by rw [phase]; rfl)) k now)
    next => exact ok

end Actions

theorem bootMachine_queueOk : MachineQueueOk bootMachine :=
  machineQueueOk_of_free threadInit_queueOk

theorem machineQueueOk_along_run (as : List Action) :
    MachineQueueOk (run machineStep bootMachine as) := by
  have keep : ∀ m a, MachineQueueOk m → MachineQueueOk (machineStep m a) := fun _ a ok =>
    machineStep_queueOk ok a
  exact Reaches.invariant keep bootMachine_queueOk ⟨as, rfl⟩

/-- After every run of the machine, whatever its actions, the ready queue is well
formed. -/
theorem ready_queue_along_run (as : List Action) :
    ∃ l, ReadyQueueOk (run machineStep bootMachine as) l :=
  (machineQueueOk_along_run as).readyQueue

end NTux.Sched
