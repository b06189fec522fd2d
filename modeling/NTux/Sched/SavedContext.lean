import NTux.Sched.Retired

/-!
# Saved contexts

`t->rsp` is written when a thread is created and when a switch suspends it, and read
when a switch resumes it.  A run is traced by what happens to these contexts
(`ContextEvent`), and `ResumedOnce` says of a history that every context that is resumed
was stored by the creation of its thread or by the switch that suspended it, with
nothing in between.

It fails when `schedule_core` finds no thread and the caller goes on: nobody is current
then, the thread that is executed may be woken, queued and switched to, and what the
switch loads is the context the thread was resumed from before.  It also fails when a
timer interrupt reschedules between the unlock of `scheduler()` and its switch.
Along every run without the two (`findsThread`), contexts are resumed once and the
thread that is executed is the current one (`saved_contexts_along_run`).
-/

namespace NTux.Sched

open NTux.Lib

/-- What happens to the stored context of a thread: its creation stores one, the switch
that suspends the thread does, a switch stores the context of other code in its place, or
a switch loads it. -/
inductive ContextEvent
  | created (t : Nat)
  | suspended (t : Nat)
  | overwritten (t : Nat)
  | resumed (t : Nat)
  deriving DecidableEq

/-- The thread an event is about. -/
def ContextEvent.thread : ContextEvent → Nat
  | .created t => t
  | .suspended t => t
  | .overwritten t => t
  | .resumed t => t

/-- The latest event about a thread, in a history whose latest event comes first. -/
def lastEvent (history : List ContextEvent) (t : Nat) : Option ContextEvent :=
  history.find? fun e => e.thread = t

/-- The context of the thread is the one of its creation or of its last suspension, and
has not been resumed. -/
def Stored (history : List ContextEvent) (t : Nat) : Prop :=
  lastEvent history t = some (.created t) ∨ lastEvent history t = some (.suspended t)

/-- Every context that was resumed was stored. -/
def ResumedOnce : List ContextEvent → Prop
  | [] => True
  | e :: history => (∀ t, e = .resumed t → Stored history t) ∧ ResumedOnce history

/-- The switch that `schedule_core` asks for: the thread recorded as the old one, and the
next. -/
def chosenSwitch (s : SchedState) : Option (Option Nat × Nat) :=
  (scheduleCore s).switchTo.map fun next => ((scheduleCore s).old, next)

/-- The switch that an action makes. -/
def switchOf (m : Machine) (a : Action) : Option (Option Nat × Nat) :=
  match a, m.cpu.phase with
  | .timer now, _ =>
      let s := timerWake m.sched now
      (timedThread s).bind fun tid =>
        let s := countTick s tid
        if quantumUsed s tid then chosenSwitch s else none
  | .switch, .switching old next _ => some (old, next)
  | _, _ => none

/-- The store of a switch, made on the stack `stack`. -/
def storeEvents (stack : Stack) : Option Nat → List ContextEvent
  | none => []
  | some o => [if stack = .thread o then .suspended o else .overwritten o]

/-- A switch made on the stack `stack`, the latest event first. -/
def switchEvents (stack : Stack) : Option (Option Nat × Nat) → List ContextEvent
  | none => []
  | some (old, next) => .resumed next :: storeEvents stack old

/-- The thread that an action creates. -/
def createdBy (m : Machine) (a : Action) : Option Nat :=
  match a, m.cpu.phase with
  | .create gotThread gotStack, .running =>
      let tid := (threadCreate m.sched gotThread gotStack).1
      if 0 ≤ tid then some tid.toNat else none
  | _, _ => none

/-- What an action does to the stored contexts, the latest event first. -/
def contextEvents (m : Machine) (a : Action) : List ContextEvent :=
  match createdBy m a with
  | some t => [.created t]
  | none => switchEvents m.cpu.stack (switchOf m a)

/-- The machine and the history of its contexts. -/
structure Traced where
  machine : Machine
  history : List ContextEvent

/-- One action, traced. -/
def tracedStep (x : Traced) (a : Action) : Traced :=
  ⟨machineStep x.machine a, contextEvents x.machine a ++ x.history⟩

/-- The machine before its first action. -/
def tracedBoot : Traced := ⟨bootMachine, []⟩

/-- The thread on whose stack the CPU executes is the current one.  Inside `scheduler()`,
between the choice of the next thread and the switch to it, it is the one to suspend. -/
def ExecutesCurrent (m : Machine) : Prop :=
  ∀ t, m.cpu.stack = .thread t →
    (m.cpu.phase.isSwitching = false → m.sched.currentThreadId = some t) ∧
      ∀ old next k, m.cpu.phase = .switching old next k → old = some t

/-- A thread in state `RUNNING`. -/
def isRunning (s : SchedState) (t : Nat) : Bool :=
  (s.threadList t).any fun th => th.state = .running

/-- A thread that calls `scheduler()` is running or leaves the CPU to another one, and no
timer interrupt reschedules between the unlock of `scheduler()` and its switch. -/
def findsThread (m : Machine) (a : Action) : Bool :=
  match a, m.cpu.phase, m.cpu.stack with
  | .schedule, .calling _, .thread t => m.sched.rq.head.isSome || isRunning m.sched t
  | .timer now, .switching _ _ _, _ => !timerReschedules m.sched now
  | _, _, _ => true

/-! ## Histories -/

section History

variable {history : List ContextEvent} {e : ContextEvent} {t : Nat}

theorem lastEvent_cons_of_ne (ne : e.thread ≠ t) :
    lastEvent (e :: history) t = lastEvent history t := by
  rw [lastEvent, List.find?_cons_of_neg (by simpa using ne)]
  rfl

theorem lastEvent_cons_self (same : e.thread = t) : lastEvent (e :: history) t = some e := by
  rw [lastEvent, List.find?_cons_of_pos (by simpa using same)]

theorem Stored.cons (stored : Stored history t) (ne : e.thread ≠ t) : Stored (e :: history) t := by
  rw [Stored, lastEvent_cons_of_ne ne]
  exact stored

/-- A store concerns the old thread only. -/
theorem Stored.store {stack : Stack} {old : Option Nat} (stored : Stored history t)
    (ne : old ≠ some t) : Stored (storeEvents stack old ++ history) t := by
  cases old with
  | none => exact stored
  | some o =>
      have other : o ≠ t := fun same => ne (congrArg some same)
      refine Stored.cons stored ?_
      split
      · exact other
      · exact other

/-- The switch that a thread makes on its own stack stores its context. -/
theorem Stored.suspended : Stored (storeEvents (.thread t) (some t) ++ history) t := by
  refine .inr ?_
  rw [storeEvents, if_pos rfl]
  exact lastEvent_cons_self rfl

theorem ResumedOnce.store {stack : Stack} {old : Option Nat} (once : ResumedOnce history) :
    ResumedOnce (storeEvents stack old ++ history) := by
  cases old with
  | none => exact once
  | some o =>
      refine ⟨fun t eq => absurd eq ?_, once⟩
      split
      · simp
      · simp

end History

/-! ## The current thread -/

section Current

variable {s : SchedState} {t : Nat}

theorem threadCreate_currentThreadId (gotThread gotStack : Bool) :
    (threadCreate s gotThread gotStack).2.currentThreadId = s.currentThreadId := by
  unfold threadCreate
  split
  · rfl
  split
  · rfl
  dsimp only
  split
  · rfl
  · exact rqEnqueue_currentThreadId _ _

theorem threadKill_currentThreadId (tid : Nat) :
    (threadKill s tid).2.currentThreadId = s.currentThreadId := by
  unfold threadKill
  split
  · rfl
  split
  · rfl
  · dsimp only
    split
    · exact rqRemove_currentThreadId _ _
    · exact rqRemove_currentThreadId _ _

theorem waitTicksSection_currentThreadId (wake : Nat) :
    (waitTicksSection s wake).currentThreadId = s.currentThreadId := by
  unfold waitTicksSection
  split
  · rfl
  split
  · rfl
  · dsimp only
    split
    · exact rqRemove_currentThreadId _ _
    · rfl

theorem networkBlockSection_currentThreadId (now : Nat) :
    (networkBlockSection s now).currentThreadId = s.currentThreadId := by
  unfold networkBlockSection
  split
  · rfl
  split
  · rfl
  · split
    · exact rqRemove_currentThreadId _ _
    · rfl

theorem timerWakeOne_currentThreadId (now u : Nat) :
    (timerWakeOne s now u).currentThreadId = s.currentThreadId := by
  unfold timerWakeOne
  split
  · rfl
  split
  · dsimp only
    split
    · exact rqEnqueue_currentThreadId _ _
    · exact rqEnqueue_currentThreadId _ _
  · rfl

theorem timerWake_currentThreadId (now : Nat) :
    (timerWake s now).currentThreadId = s.currentThreadId :=
  timerWake_induction (P := fun s' => s'.currentThreadId = s.currentThreadId)
    (fun _ u same => (timerWakeOne_currentThreadId now u).trans same) rfl

theorem threadReapTerminated_currentThreadId :
    (threadReapTerminated s).currentThreadId = s.currentThreadId :=
  threadReapTerminated_induction (P := fun s' => s'.currentThreadId = s.currentThreadId)
    (fun _ i same => (reapOne_currentThreadId i).trans same) rfl

end Current

/-! ## The choice of the next thread -/

section Choice

variable {s : SchedState} {cpu : Context} {t : Nat}

theorem rqEnqueue_queued (s : SchedState) (t : Nat) : (rqEnqueue s t).rq.queued t = true := by
  unfold rqEnqueue
  split
  next queued => exact queued
  next =>
    show (s.rq.add t).queued t = true
    rw [IntrusiveQueue.add_queued]
    simp

/-- Reaping spares a thread that is not terminated. -/
theorem threadReapTerminated_running (running : isRunning s t = true) :
    isRunning (threadReapTerminated s) t = true := by
  refine threadReapTerminated_induction (P := fun s => isRunning s t = true) ?_ running
  intro s i running
  obtain ⟨th, eq, state⟩ := Option.any_eq_true _ _ |>.1 running
  unfold reapOne
  split
  · exact running
  next th' eq' =>
    split
    · exact running
    next dead =>
      split
      · exact running
      · have ne : t ≠ i := by
          rintro rfl
          obtain rfl := Option.some.inj (eq.symm.trans eq')
          rw [of_decide_eq_true state] at dead
          exact dead (by simp)
        unfold isRunning
        dsimp only
        rw [Function.update_of_ne ne, rqRemove_threadList, eq]
        exact state

/-- A current thread that runs is put back on the queue. -/
theorem requeueOld_queued (current : s.currentThreadId = some t) (running : isRunning s t = true) :
    (requeueOld s).rq.queued t = true := by
  obtain ⟨th, eq, state⟩ := Option.any_eq_true _ _ |>.1 running
  unfold requeueOld
  simp only [current, eq]
  rw [if_pos (of_decide_eq_true state)]
  exact rqEnqueue_queued _ t

/-- Where the thread that is executed is the current one and runs, or another one is
ready, `schedule_core` goes on with it or suspends it. -/
theorem scheduleCore_named {free : Prop} (ok : StackOk s cpu)
    (still : cpu.phase.isSwitching = false) (queues : QueueOk s free)
    (named : ∀ t, cpu.stack = .thread t → s.currentThreadId = some t)
    (busy : ∀ t, cpu.stack = .thread t → s.rq.head.isSome = true ∨ isRunning s t = true) :
    ((scheduleCore s).switchTo = none →
        ∀ t, cpu.stack = .thread t → (scheduleCore s).sched.currentThreadId = some t) ∧
      ∀ next, (scheduleCore s).switchTo = some next → (scheduleCore s).old ≠ some next ∧
        ∀ t, cpu.stack = .thread t → (scheduleCore s).old = some t := by
  obtain ⟨l₀, w, inv₀, -⟩ := queues
  obtain ⟨l, pre, inv⟩ := requeueOld_queueInv (threadReapTerminated_queueInv inv₀)
  have reaped := threadReapTerminated_stackOk ok still
  have sameCurrent := threadReapTerminated_currentThreadId (s := s)
  have current := requeueOld_currentThreadId (s := threadReapTerminated s)
  -- the queue is not empty once the current thread is back on it
  have filled : ∀ t, cpu.stack = .thread t → l ≠ [] := by
    rintro t own rfl
    rcases busy t own with head | running
    · have empty : l₀ = [] := List.prefix_nil.1 pre
      rw [inv₀.ready.links.forward.head_eq, empty] at head
      exact absurd head (by simp)
    · have queued := requeueOld_queued (sameCurrent.trans (named t own))
        (threadReapTerminated_running running)
      exact absurd ((inv.ready.flags t).1 queued) (by simp)
  have old : ∀ t, cpu.stack = .thread t → oldThread (threadReapTerminated s) = some t := by
    intro t own
    obtain ⟨th, eq⟩ := reaped.alive t own
    rw [oldThread, sameCurrent, named t own, Option.filter_some, eq]
    rfl
  have oldCurrent : ∀ t, oldThread (threadReapTerminated s) = some t →
      (threadReapTerminated s).currentThreadId = some t := fun t eq => oldThread_eq eq
  unfold scheduleCore
  dsimp only
  generalize requeueOld (threadReapTerminated s) = s' at inv current ⊢
  generalize oldThread (threadReapTerminated s) = o at old oldCurrent ⊢
  cases l with
  | nil =>
      rw [inv.rqDequeue_nil]
      exact ⟨fun _ t own => absurd rfl (filled t own), fun next eq => absurd eq (by simp)⟩
  | cons next l =>
      obtain ⟨rq, eq, -⟩ := inv.rqDequeue
      rw [eq]
      dsimp only
      split
      next same =>
        refine ⟨fun _ t own => ?_, fun next eq => absurd eq (by simp)⟩
        rw [SchedState.modify_currentThreadId]
        exact current.trans (sameCurrent.trans (named t own))
      next other =>
        refine ⟨fun eq => absurd eq (by simp), fun next' eqNext => ⟨fun eq => ?_, old⟩⟩
        obtain rfl := Option.some.inj eqNext
        exact other (oldCurrent next eq)

end Choice

/-! ## The invariant -/

/-- The thread that is executed is the current one, the context of every other thread
that is not over is stored, and every context resumed so far was. -/
structure ContextsOk (x : Traced) : Prop where
  machine : MachineOk x.machine
  named : ∀ t, x.machine.cpu.phase.isSwitching = false → x.machine.cpu.stack = .thread t →
    x.machine.sched.currentThreadId = some t
  leaving : ∀ old next k, x.machine.cpu.phase = .switching old next k →
    old ≠ some next ∧ ∀ t, x.machine.cpu.stack = .thread t → old = some t
  stored : ∀ t, ¬ Over x.machine.sched t → x.machine.cpu.stack ≠ .thread t → Stored x.history t
  once : ResumedOnce x.history

/-- The switch itself: what it loads was stored, and what it suspends is. -/
theorem switchContext_contexts {m : Machine} {old : Option Nat} {next : Nat} {k : Resume}
    {after : Phase} {history : List ContextEvent}
    (ok : StackOk m.sched ⟨m.cpu.stack, .switching old next k⟩)
    (okAfter : StackOk (switchContext m old next after).sched (switchContext m old next after).cpu)
    (leaving : old ≠ some next ∧ ∀ t, m.cpu.stack = .thread t → old = some t)
    (stored : ∀ t, ¬ Over m.sched t → m.cpu.stack ≠ .thread t → Stored history t)
    (once : ResumedOnce history) :
    (switchContext m old next after).sched.currentThreadId = some next ∧
      (switchContext m old next after).cpu.stack = .thread next ∧
      (switchContext m old next after).cpu.phase.isSwitching = false ∧
      (∀ t, ¬ Over (switchContext m old next after).sched t →
        (switchContext m old next after).cpu.stack ≠ .thread t →
        Stored (.resumed next :: storeEvents m.cpu.stack old ++ history) t) ∧
      ResumedOnce (.resumed next :: storeEvents m.cpu.stack old ++ history) := by
  obtain ⟨⟨th, eq, running⟩, current, olds⟩ := ok.switching old next k rfl
  have retires : Retires (fun _ => False) m.sched (switchContext m old next after).sched :=
    switchContext_retires old next after
  have liveNext : ¬ Over m.sched next := fun ended => by
    rw [ended th eq] at running
    exact absurd running (by simp)
  have away : m.cpu.stack ≠ .thread next := fun own => leaving.1 (leaving.2 next own)
  have currentAfter : (switchContext m old next after).sched.currentThreadId = some next := by
    have kept : (storeContext m old after).currentThreadId = some next := by
      cases old with
      | none => exact current
      | some o => exact current
    unfold switchContext
    dsimp only
    split <;> exact kept
  have loaded : (switchContext m old next after).cpu = th.rsp := by
    have thNext : ∃ th', (storeContext m old after).threadList next = some th' ∧
        th'.rsp = th.rsp := by
      cases old with
      | none => exact ⟨th, eq, rfl⟩
      | some o =>
          have ne : next ≠ o := fun same => leaving.1 (congrArg some same.symm)
          exact ⟨th, (SchedState.modify_threadList_of_ne _ _ _ ne).trans eq, rfl⟩
    obtain ⟨th', eq', rsp⟩ := thNext
    unfold switchContext
    dsimp only
    rw [eq']
    exact rsp
  obtain ⟨-, switched, ownTh⟩ := ok.saved next th eq
  have own : (switchContext m old next after).cpu.stack = .thread next := by
    rw [loaded]
    rcases ownTh with stack | ⟨dead, -⟩
    · exact stack
    · rw [running] at dead
      exact absurd dead (by simp)
  refine ⟨currentAfter, own, by rw [loaded, switched], fun t live off => ?_, ?_, ResumedOnce.store once⟩
  · have neNext : next ≠ t := fun same => off (same ▸ own)
    refine Stored.cons ?_ neNext
    have before : ¬ Over m.sched t := fun ended => live (retires.ended t id ended)
    by_cases onT : m.cpu.stack = .thread t
    · rw [leaving.2 t onT, onT]
      exact Stored.suspended
    · refine Stored.store (stored t before onT) fun same => ?_
      -- the old thread is executed, or its exit is
      rcases olds t same with onT' | ⟨-, dead⟩
      · exact onT onT'
      · exact before dead
  · intro t eqT
    obtain rfl := ContextEvent.resumed.inj eqT
    exact Stored.store (stored next liveNext away) leaving.1

/-! ## The actions -/

section Actions

variable {x : Traced} {a : Action}

/-- An action without a switch keeps the stored contexts. -/
theorem ContextsOk.quiet {m : Machine} (ok : ContextsOk x) (machine : MachineOk m)
    (retires : Retires (fun t => x.machine.cpu.stack = .thread t) x.machine.sched m.sched)
    (stack : ∀ t, x.machine.cpu.stack = .thread t → m.cpu.stack = .thread t ∨ Over m.sched t)
    (named : ∀ t, m.cpu.phase.isSwitching = false → m.cpu.stack = .thread t →
      m.sched.currentThreadId = some t)
    (leaving : ∀ old next k, m.cpu.phase = .switching old next k →
      old ≠ some next ∧ ∀ t, m.cpu.stack = .thread t → old = some t) :
    ContextsOk ⟨m, x.history⟩ := by
  refine ⟨machine, named, leaving, fun t live off => ?_, ok.once⟩
  have away : x.machine.cpu.stack ≠ .thread t := fun own =>
    (stack t own).elim off live
  exact ok.stored t (fun ended => live (retires.ended t away ended)) away

/-- The condition of this module is stronger than the one that spares stacks. -/
theorem keepsStack_of_findsThread (ok : ContextsOk x) (cond : findsThread x.machine a = true) :
    keepsStack x.machine a = true := by
  cases stack : x.machine.cpu.stack with
  | thread t =>
      cases phase : x.machine.cpu.phase with
      | calling k =>
          cases a with
          | schedule =>
              simp only [findsThread, keepsStack, phase, stack, Bool.or_eq_true] at cond ⊢
              refine decide_eq_true fun dead => cond.resolve_right fun running => ?_
              obtain ⟨th, eq, state⟩ := Option.any_eq_true _ _ |>.1 running
              rw [isTerminated, eq, Option.any_some, of_decide_eq_true state] at dead
              exact absurd dead (by simp)
          | _ => simp [keepsStack, phase]
      | running =>
          have current := ok.named t (by rw [phase]; rfl) stack
          cases a with
          | kill tid => simp [keepsStack, phase, stack, current]
          | _ => simp [keepsStack, phase]
      | switching old next k =>
          cases a with
          | timer now => simpa only [findsThread, keepsStack, phase] using cond
          | _ => simp [keepsStack, phase]
      | _ => cases a <;> simp [keepsStack, phase]
  | _ =>
      cases phase : x.machine.cpu.phase with
      | switching old next k =>
          cases a with
          | timer now => simpa only [findsThread, keepsStack, phase] using cond
          | _ => simp [keepsStack, phase, stack]
      | _ => cases a <;> simp [keepsStack, phase, stack]

/-- Outside a call of `scheduler()` there is nobody to leave. -/
theorem not_leaving {m : Machine} (still : m.cpu.phase.isSwitching = false) :
    ∀ old next k, m.cpu.phase = .switching old next k →
      old ≠ some next ∧ ∀ t, m.cpu.stack = .thread t → old = some t := by
  intro old next k phase
  rw [phase] at still
  exact absurd still (by simp [Phase.isSwitching])

/-- A switch from an interrupt suspends the thread that is executed. -/
theorem schedulerFromIrq_contexts {s : SchedState} {tid : Nat} {free : Prop} (ok : ContextsOk x)
    (stackOk : StackOk s x.machine.cpu) (queues : QueueOk s free)
    (still : x.machine.cpu.phase.isSwitching = false)
    (current : s.currentThreadId = x.machine.sched.currentThreadId)
    (timed : timedThread s = some tid)
    (before : Retires (fun _ => False) x.machine.sched s)
    (machine : MachineOk (schedulerFromIrq ⟨s, x.machine.cpu⟩)) :
    ContextsOk ⟨schedulerFromIrq ⟨s, x.machine.cpu⟩,
      switchEvents x.machine.cpu.stack (chosenSwitch s) ++ x.history⟩ := by
  obtain ⟨currentTid, runs⟩ := Option.filter_eq_some_iff.1 timed
  have named : ∀ t, x.machine.cpu.stack = .thread t → s.currentThreadId = some t := fun t own =>
    current.trans (ok.named t still own)
  have running : ∀ t, x.machine.cpu.stack = .thread t → isRunning s t = true := fun t own =>
    Option.some.inj (currentTid.symm.trans (named t own)) ▸ runs
  obtain ⟨stay, leave⟩ := scheduleCore_named stackOk still queues named fun t own =>
    .inr (running t own)
  have chosen : Retires (fun _ => False) x.machine.sched (scheduleCore s).sched :=
    before.trans (scheduleCore_retires queues)
  obtain ⟨l, w, inv, -⟩ := queues
  obtain ⟨-, switch⟩ := scheduleCore_stackOk stackOk still inv fun t th own eq dead => by
    have alive := running t own
    rw [isRunning, eq, Option.any_some, dead] at alive
    exact absurd alive (by simp)
  unfold schedulerFromIrq chosenSwitch at *
  generalize scheduleCore s = r at *
  dsimp only at *
  cases picked : r.switchTo with
  | none =>
      simp only [picked] at machine
      refine ok.quiet machine ⟨chosen.next, fun t _ => chosen.ended t id⟩ (fun t own => .inl own)
        (fun t _ own => stay picked t own) (not_leaving still)
  | some next =>
      simp only [picked] at machine
      have stored : ∀ t, ¬ Over r.sched t → x.machine.cpu.stack ≠ .thread t →
          Stored x.history t := fun t live =>
        ok.stored t fun ended => live (chosen.ended t id ended)
      obtain ⟨currentN, own, stillN, storedN, once⟩ :=
        switchContext_contexts (m := ⟨r.sched, x.machine.cpu⟩)
          (switch next picked .exitLoop (.exitLoop rfl)) machine.stackOk (leave next picked) stored
          ok.once
      refine ⟨machine, fun t _ ownT => ?_, not_leaving stillN, storedN, once⟩
      obtain rfl := Stack.thread.inj (own.symm.trans ownT)
      exact currentN

theorem timer_contexts {now : Nat} (ok : ContextsOk x)
    (cond : findsThread x.machine (.timer now) = true)
    (machine : MachineOk (timerHandler x.machine now)) :
    ContextsOk ⟨timerHandler x.machine now,
      switchEvents x.machine.cpu.stack (switchOf x.machine (.timer now)) ++ x.history⟩ := by
  have woken := timerWake_stackOk ok.machine.stackOk now
  have queues := timerWake_queueOk ok.machine.queues now
  have current := timerWake_currentThreadId (s := x.machine.sched) now
  have before : Retires (fun _ => False) x.machine.sched (timerWake x.machine.sched now) :=
    timerWake_retires now
  have still : timerReschedules x.machine.sched now = true →
      x.machine.cpu.phase.isSwitching = false := by
    intro reschedules
    cases phase : x.machine.cpu.phase with
    | switching old next k =>
        simp only [findsThread, phase] at cond
        rw [reschedules] at cond
        exact absurd cond (by simp)
    | _ => rfl
  -- an interrupt that does not reschedule leaves the contexts alone
  have quiet : ∀ s : SchedState, Retires (fun _ => False) x.machine.sched s →
      s.currentThreadId = x.machine.sched.currentThreadId → MachineOk ⟨s, x.machine.cpu⟩ →
      ContextsOk ⟨⟨s, x.machine.cpu⟩, x.history⟩ := fun s retires same machine =>
    ok.quiet machine ⟨retires.next, fun t _ => retires.ended t id⟩ (fun t own => .inl own)
      (fun t phase own => same.trans (ok.named t phase own)) ok.leaving
  unfold timerReschedules at still
  unfold timerHandler at machine ⊢
  simp only [switchOf]
  dsimp only at machine ⊢
  generalize timerWake x.machine.sched now = s at *
  cases timed : timedThread s with
  | none =>
      simp only [timed] at machine
      exact quiet s before current machine
  | some tid =>
      have counted : Retires (fun _ => False) x.machine.sched (countTick s tid) :=
        before.trans (.modify_same fun _ => rfl)
      simp only [timed, Option.bind_some, Option.any_some] at machine still ⊢
      split at machine
      next used =>
        rw [if_pos used, if_pos used]
        exact schedulerFromIrq_contexts ok (countTick_stackOk woken tid)
          (queues.modify_same tid fun _ => rfl) (still used) current (timedThread_countTick timed)
          counted machine
      next unused =>
        rw [if_neg unused, if_neg unused]
        exact quiet _ counted current machine

theorem schedulerCall_contexts {k : Resume} (ok : ContextsOk x)
    (phase : x.machine.cpu.phase = .calling k)
    (cond : findsThread x.machine .schedule = true)
    (machine : MachineOk (schedulerCall x.machine k)) :
    ContextsOk ⟨schedulerCall x.machine k, x.history⟩ := by
  have still : x.machine.cpu.phase.isSwitching = false := by
    rw [phase]
    rfl
  have busy : ∀ t, x.machine.cpu.stack = .thread t →
      x.machine.sched.rq.head.isSome = true ∨ isRunning x.machine.sched t = true := by
    intro t own
    simpa only [findsThread, phase, own, Bool.or_eq_true] using cond
  obtain ⟨stay, leave⟩ := scheduleCore_named ok.machine.stackOk still ok.machine.queues
    (fun t own => ok.named t still own) busy
  have retires : Retires (fun t => x.machine.cpu.stack = .thread t) x.machine.sched
      (schedulerCall x.machine k).sched := schedulerCall_retires ok.machine.queues k
  refine ok.quiet machine retires
    (fun t own => .inl ((schedulerCall_stack k).trans own)) (fun t phase' own => ?_)
    fun old next k' phase' => ?_
  · rw [schedulerCall_stack] at own
    unfold schedulerCall at phase' ⊢
    dsimp only at phase' ⊢
    cases picked : (scheduleCore x.machine.sched).switchTo with
    | none =>
        simp only
        exact stay picked t own
    | some next =>
        simp only [picked] at phase'
        exact absurd phase' (by simp [Phase.isSwitching])
  · rw [schedulerCall_stack]
    unfold schedulerCall at phase'
    dsimp only at phase'
    cases picked : (scheduleCore x.machine.sched).switchTo with
    | none =>
        simp only [picked] at phase'
        exact absurd phase' (by simp)
    | some chosen =>
        simp only [picked] at phase'
        obtain ⟨rfl, rfl, -⟩ := Phase.switching.inj phase'
        exact leave chosen picked

theorem switch_contexts {old : Option Nat} {next : Nat} {k : Resume} (ok : ContextsOk x)
    (phase : x.machine.cpu.phase = .switching old next k)
    (machine : MachineOk (switchContext x.machine old next (.returned k))) :
    ContextsOk ⟨switchContext x.machine old next (.returned k),
      switchEvents x.machine.cpu.stack (some (old, next)) ++ x.history⟩ := by
  have switching : StackOk x.machine.sched ⟨x.machine.cpu.stack, .switching old next k⟩ :=
    phase ▸ ok.machine.stackOk
  obtain ⟨current, own, still, stored, once⟩ := switchContext_contexts switching machine.stackOk
    (ok.leaving old next k phase) ok.stored ok.once
  refine ⟨machine, fun t _ ownT => ?_, not_leaving still, stored, once⟩
  obtain rfl := Stack.thread.inj (own.symm.trans ownT)
  exact current

theorem proceed_contexts {k : Resume} {now : Nat} (ok : ContextsOk x)
    (phase : x.machine.cpu.phase = .returned k)
    (machine : MachineOk (afterScheduler x.machine k now)) :
    ContextsOk ⟨afterScheduler x.machine k now, x.history⟩ := by
  have still : x.machine.cpu.phase.isSwitching = false := by
    rw [phase]
    rfl
  have stack := (afterScheduler_stackOk ok.machine.stackOk phase now).2
  have own : ∀ tid wake, k = .wait (some tid) wake → x.machine.cpu.stack = .thread tid := by
    rintro tid wake rfl
    exact ok.machine.stackOk.context.wait tid wake (by rw [phase]; rfl)
  have named : ∀ t, x.machine.cpu.stack = .thread t →
      (afterScheduler x.machine k now).sched.currentThreadId = some t := by
    intro t ownT
    have same := ok.named t still ownT
    cases k with
    | network => exact same
    | yieldLoop => exact same
    | exitLoop => exact same
    | wait tid wake =>
        unfold afterScheduler
        cases tid with
        | none => exact same
        | some tid =>
            cases eq : x.machine.sched.threadList tid with
            | none => simpa only [eq] using same
            | some th =>
                simp only [eq]
                split
                · exact same
                · exact congrArg some (Stack.thread.inj ((own tid wake rfl).symm.trans ownT))
  have stillAfter : (afterScheduler x.machine k now).cpu.phase.isSwitching = false := by
    cases k with
    | network => rfl
    | yieldLoop =>
        unfold afterScheduler
        dsimp only
        split <;> rfl
    | exitLoop =>
        unfold afterScheduler
        dsimp only
        split <;> rfl
    | wait tid wake =>
        unfold afterScheduler
        cases tid with
        | none => rfl
        | some tid =>
            cases eq : x.machine.sched.threadList tid with
            | none =>
                simp only [eq]
                rfl
            | some th =>
                simp only [eq]
                split
                · exact still
                · rfl
  refine ok.quiet machine (afterScheduler_retires fun tid wake th eq _ _ => own tid wake eq)
    (fun t ownT => .inl (stack.trans ownT)) (fun t _ ownT => named t ?_) (not_leaving stillAfter)
  rw [← stack]
  exact ownT

/-- Code of its own keeps its stack and the current thread, and does not switch; only a
fault leaves the stack, for good. -/
theorem runningStep_frame (a : Action) {m : Machine} (phase : m.cpu.phase = .running) :
    ((runningStep m a).cpu.stack = m.cpu.stack ∨
        ((runningStep m a).cpu.stack = .isrExit ∧
          ∀ t, m.sched.currentThreadId = some t → Over (runningStep m a).sched t)) ∧
      (runningStep m a).sched.currentThreadId = m.sched.currentThreadId ∧
      (runningStep m a).cpu.phase.isSwitching = false := by
  have still : m.cpu.phase.isSwitching = false := by
    rw [phase]
    rfl
  cases a with
  | create gotThread gotStack =>
      exact ⟨.inl rfl, threadCreate_currentThreadId gotThread gotStack, still⟩
  | kill tid => exact ⟨.inl rfl, threadKill_currentThreadId tid, still⟩
  | yield => exact ⟨.inl rfl, rfl, rfl⟩
  | waitTicks now ticks =>
      unfold runningStep
      dsimp only
      split
      · exact ⟨.inl rfl, rfl, still⟩
      · exact ⟨.inl rfl, waitTicksSection_currentThreadId _, rfl⟩
  | networkBlock now => exact ⟨.inl rfl, networkBlockSection_currentThreadId now, rfl⟩
  | exit => exact ⟨.inl rfl, threadExitSection_currentThreadId, rfl⟩
  | fault =>
      unfold runningStep
      dsimp only
      split
      · exact ⟨.inr ⟨rfl, fun t => threadExitSection_terminated⟩, threadExitSection_currentThreadId, rfl⟩
      · exact ⟨.inl rfl, rfl, rfl⟩
  | _ => exact ⟨.inl rfl, rfl, still⟩

/-- A thread that is created has its first context. -/
theorem createdBy_eq {m : Machine} (gotThread gotStack : Bool) (phase : m.cpu.phase = .running) :
    (createdBy m (.create gotThread gotStack) = some m.sched.nextThreadId) ∨
      (createdBy m (.create gotThread gotStack) = none ∧
        (threadCreate m.sched gotThread gotStack).2.threadList = m.sched.threadList) := by
  simp only [createdBy, phase]
  unfold threadCreate
  split
  · exact .inr ⟨rfl, rfl⟩
  split
  · exact .inr ⟨rfl, rfl⟩
  dsimp only
  split
  · exact .inr ⟨rfl, rfl⟩
  · refine .inl ?_
    rw [if_pos (Int.natCast_nonneg _), Int.toNat_natCast]

theorem create_contexts {gotThread gotStack : Bool} (ok : ContextsOk x)
    (phase : x.machine.cpu.phase = .running)
    (machine : MachineOk (runningStep x.machine (.create gotThread gotStack))) :
    ContextsOk ⟨runningStep x.machine (.create gotThread gotStack),
      contextEvents x.machine (.create gotThread gotStack) ++ x.history⟩ := by
  have still : x.machine.cpu.phase.isSwitching = false := by
    rw [phase]
    rfl
  have named : ∀ t, x.machine.cpu.stack = .thread t →
      (runningStep x.machine (.create gotThread gotStack)).sched.currentThreadId = some t :=
    fun t own => (threadCreate_currentThreadId gotThread gotStack).trans (ok.named t still own)
  have retires : Retires (· = x.machine.sched.nextThreadId) x.machine.sched
      (threadCreate x.machine.sched gotThread gotStack).2 :=
    threadCreate_retires (by rfl) gotThread gotStack
  unfold contextEvents
  rcases createdBy_eq gotThread gotStack phase with created | ⟨none, list⟩
  · rw [created]
    refine ⟨machine, fun t _ own => named t own, not_leaving still, fun t live off => ?_, ?_⟩
    · rcases eq_or_ne t x.machine.sched.nextThreadId with rfl | ne
      · exact .inl (lastEvent_cons_self rfl)
      · exact (ok.stored t (fun ended => live (retires.ended t ne ended)) off).cons ne.symm
    · exact ⟨fun t eq => absurd eq (by simp), ok.once⟩
  · rw [none]
    have noSwitch : switchOf x.machine (.create gotThread gotStack) = .none := rfl
    rw [noSwitch]
    refine ok.quiet machine ⟨retires.next, fun t _ ended => ?_⟩ (fun t own => .inl own)
      (fun t _ own => named t own) (not_leaving still)
    intro th eq
    exact ended th ((congrFun list t).symm.trans eq)

theorem running_contexts (ok : ContextsOk x) (phase : x.machine.cpu.phase = .running)
    (notCreate : ∀ gotThread gotStack, a ≠ .create gotThread gotStack)
    (machine : MachineOk (runningStep x.machine a)) :
    ContextsOk ⟨runningStep x.machine a, x.history⟩ := by
  have still : x.machine.cpu.phase.isSwitching = false := by
    rw [phase]
    rfl
  obtain ⟨stack, current, stillAfter⟩ := runningStep_frame a phase
  have retires : Retires (fun t => x.machine.cpu.stack = .thread t) x.machine.sched
      (runningStep x.machine a).sched :=
    runningStep_retires (fun _ _ eq => absurd eq (notCreate _ _)) fun tid th _ current _ _ =>
      ok.machine.stackOk.current_stack phase current
  refine ok.quiet machine retires (fun t own => ?_) (fun t _ own => ?_) (not_leaving stillAfter)
  · rcases stack with same | ⟨-, ended⟩
    · exact .inl (same.trans own)
    · exact .inr (ended t (ok.named t still own))
  · rcases stack with same | ⟨exit, -⟩
    · exact current.trans (ok.named t still (same.symm.trans own))
    · rw [exit] at own
      exact absurd own (by simp)

/-- Every action that meets the condition keeps the contexts. -/
theorem tracedStep_contextsOk (ok : ContextsOk x) (cond : findsThread x.machine a = true) :
    ContextsOk (tracedStep x a) := by
  have machine := (machineStep_stackOk ok.machine (keepsStack_of_findsThread ok cond)).1
  unfold tracedStep
  cases a with
  | timer now => exact timer_contexts ok cond machine
  | timerLocked =>
      unfold machineStep at machine ⊢
      have retires : Retires (fun t => x.machine.cpu.stack = .thread t) x.machine.sched
          (timerHandlerLocked x.machine).sched := timerHandlerLocked_retires
      have same : (timerHandlerLocked x.machine).cpu = x.machine.cpu ∧
          (timerHandlerLocked x.machine).sched.currentThreadId =
            x.machine.sched.currentThreadId := by
        unfold timerHandlerLocked
        split
        · exact ⟨rfl, rfl⟩
        · exact ⟨rfl, rfl⟩
      refine ok.quiet machine retires (fun t own => .inl (same.1 ▸ own)) (fun t phase own => ?_) ?_
      · dsimp only at phase own ⊢
        rw [same.1] at phase own
        exact same.2.trans (ok.named t phase own)
      · dsimp only
        rw [same.1]
        exact ok.leaving
  | create gotThread gotStack =>
      unfold machineStep at machine ⊢
      cases phase : x.machine.cpu.phase with
      | running =>
          simp only [phase] at machine
          exact create_contexts ok phase machine
      | _ =>
          simpa only [contextEvents, createdBy, switchOf, switchEvents, List.nil_append, phase] using ok
  | schedule =>
      unfold machineStep at machine ⊢
      cases phase : x.machine.cpu.phase with
      | calling k =>
          simp only [phase] at machine
          simpa only [contextEvents, createdBy, switchOf, switchEvents, List.nil_append, phase] using
            schedulerCall_contexts ok phase cond machine
      | _ => simpa only [contextEvents, createdBy, switchOf, switchEvents, List.nil_append,
          phase, runningStep] using ok
  | switch =>
      unfold machineStep at machine ⊢
      cases phase : x.machine.cpu.phase with
      | switching old next k =>
          simp only [phase] at machine
          simpa only [contextEvents, createdBy, switchOf, phase] using
            switch_contexts ok phase machine
      | _ => simpa only [contextEvents, createdBy, switchOf, switchEvents, List.nil_append,
          phase, runningStep] using ok
  | proceed now =>
      unfold machineStep at machine ⊢
      cases phase : x.machine.cpu.phase with
      | returned k =>
          simp only [phase] at machine
          simpa only [contextEvents, createdBy, switchOf, switchEvents, List.nil_append, phase] using
            proceed_contexts ok phase machine
      | _ => simpa only [contextEvents, createdBy, switchOf, switchEvents, List.nil_append,
          phase, runningStep] using ok
  | _ =>
      unfold machineStep at machine ⊢
      cases phase : x.machine.cpu.phase with
      | running =>
          simp only [phase] at machine
          simpa only [contextEvents, createdBy, switchOf, switchEvents, List.nil_append, phase] using
            running_contexts ok phase (fun _ _ => by simp) machine
      | _ =>
          simpa only [contextEvents, createdBy, switchOf, switchEvents, List.nil_append, phase] using ok

end Actions

theorem tracedBoot_ok : ContextsOk tracedBoot := by
  refine ⟨bootMachine_ok, fun t _ own => absurd own (by simp [tracedBoot, bootMachine]),
    not_leaving rfl, fun t live _ => ?_, trivial⟩
  exact absurd (fun th eq => absurd eq (by simp [tracedBoot, bootMachine, threadInit])) live

theorem ContextsOk.executesCurrent {x : Traced} (ok : ContextsOk x) :
    ExecutesCurrent x.machine :=
  fun t own => ⟨fun still => ok.named t still own,
    fun old next k phase => (ok.leaving old next k phase).2 t own⟩

/-- Along a run whose actions all meet the condition, every context that is resumed was
stored by its thread's creation or last suspension and not resumed since, and at every
point the thread that is executed is the current one. -/
theorem saved_contexts_along_run (as : List Action)
    (cond : AllSteps tracedStep (fun x a => findsThread x.machine a = true) tracedBoot as) :
    ∀ before after, as = before ++ after →
      ResumedOnce (run tracedStep tracedBoot before).history ∧
        ExecutesCurrent (run tracedStep tracedBoot before).machine := by
  rintro before after rfl
  have keep : ∀ x a, ContextsOk x → findsThread x.machine a = true →
      ContextsOk (tracedStep x a) := fun _ _ => tracedStep_contextsOk
  obtain ⟨first, -⟩ := (allSteps_append _ tracedBoot before after).1 cond
  have ok := run_invariant keep tracedBoot_ok first
  exact ⟨ok.once, ok.executesCurrent⟩

/-- Two threads; one sleeps while the other one runs, is woken by the timer and resumed. -/
def sleepAndResume : List Action :=
  [.create true true, .create true true, .yield, .schedule, .switch, .waitTicks 0 1, .schedule,
    .switch, .timer 1, .yield, .schedule, .switch, .proceed 1]

/-- The condition holds where a thread sleeps while another one runs. -/
theorem saved_contexts_sleepAndResume :
    ResumedOnce (run tracedStep tracedBoot sleepAndResume).history ∧
      ExecutesCurrent (run tracedStep tracedBoot sleepAndResume).machine :=
  saved_contexts_along_run sleepAndResume (by decide +kernel) sleepAndResume []
    (List.append_nil _).symm

/-- One thread blocks in the network stack while no other one is ready, goes on, is woken
by the timer and yields. -/
def blockedAlone : List Action :=
  [.create true true, .yield, .schedule, .switch, .networkBlock 0, .schedule, .proceed 0]

/-- The thread is executed although nobody is current, and its yield resumes the context
it was created with once more. -/
theorem saved_contexts_broken :
    ¬ ExecutesCurrent (run tracedStep tracedBoot blockedAlone).machine ∧
      ¬ ResumedOnce (run tracedStep tracedBoot
        (blockedAlone ++ [.timer 1, .yield, .schedule, .switch])).history := by
  have history : (run tracedStep tracedBoot
      (blockedAlone ++ [.timer 1, .yield, .schedule, .switch])).history =
        [.resumed 0, .resumed 0, .created 0] := by decide +kernel
  have twice : ¬ ResumedOnce [.resumed 0, .resumed 0, .created 0] := fun once =>
    (once.1 0 rfl).elim (by decide) (by decide)
  rw [history]
  refine ⟨fun executes => ?_, twice⟩
  have named := (executes 0 (by decide +kernel)).1 (by decide +kernel)
  exact absurd named (by decide +kernel)

end NTux.Sched
