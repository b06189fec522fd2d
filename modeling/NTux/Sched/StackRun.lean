import NTux.Sched.StackUse

/-!
# Stacks in use along a run

`keepsStack` is the condition on an action and on the machine it meets: a terminated
thread that calls `scheduler()` finds another one ready, a thread that kills itself is
the current one, and no timer interrupt reschedules between the unlock of `scheduler()`
and its switch.  Along a run whose actions all meet it, the thread on whose stack the
CPU executes is never freed (`executing_thread_spared_along_run`).

Where the condition fails first, the ready queue is empty while the last thread exits:
the second call of `scheduler()` frees the stack it runs on.
-/

namespace NTux.Sched

open NTux.Lib

/-- Whether `timer_handler` reschedules at the tick `now`. -/
def timerReschedules (s : SchedState) (now : Nat) : Bool :=
  (timedThread (timerWake s now)).any fun tid =>
    quantumUsed (countTick (timerWake s now) tid) tid

/-- A thread is in the table and terminated. -/
def isTerminated (s : SchedState) (t : Nat) : Bool :=
  (s.threadList t).any fun th => th.state = .terminated

/-- The action does not part the current thread from the one that is executed. -/
def keepsStack (m : Machine) (a : Action) : Bool :=
  match a, m.cpu.phase, m.cpu.stack with
  | .schedule, .calling _, .thread t => isTerminated m.sched t → m.sched.rq.head.isSome
  | .kill tid, .running, .thread t => tid = t → m.sched.currentThreadId = some t
  | .timer now, .switching _ _ _, _ => !timerReschedules m.sched now
  | _, _, _ => true

/-- The action does not free the thread on whose stack the CPU executes. -/
def SparesExecuting (m : Machine) (a : Action) : Prop :=
  ∀ t, m.cpu.stack = .thread t → (m.sched.threadList t).isSome = true →
    ((machineStep m a).sched.threadList t).isSome = true

/-- The queues are well formed and the records fit the context that is executed. -/
structure MachineOk (m : Machine) : Prop where
  queues : MachineQueueOk m
  stackOk : StackOk m.sched m.cpu

theorem StackOk.isSome {s : SchedState} {cpu : Context} {t : Nat} (ok : StackOk s cpu)
    (own : cpu.stack = .thread t) : (s.threadList t).isSome = true := by
  obtain ⟨th, eq⟩ := ok.alive t own
  rw [eq, Option.isSome_some]

@[simp] theorem SchedState.isSome_modify (s : SchedState) (t u : Nat) (f : Thread → Thread) :
    ((s.modify t f).threadList u).isSome = (s.threadList u).isSome := by
  rcases eq_or_ne u t with rfl | ne
  · rw [modify_threadList_self, Option.isSome_map]
  · rw [modify_threadList_of_ne _ _ _ ne]

namespace ContextOk

variable {stack : Stack} {p p' : Phase} {k : Resume}

/-- Along a call of `scheduler()` the code that follows it stays the same. -/
theorem follow (ok : ContextOk ⟨stack, p⟩) (before : p.resume = some k)
    (after : p'.resume = some k) : ContextOk ⟨stack, p'⟩ := by
  refine ⟨fun tid wake eq => ok.wait tid wake ?_, fun exit => .inr ?_⟩
  · exact before.trans (after.symm.trans eq)
  · rcases ok.exit exit with halted | resume
    · obtain rfl : p = .halted := halted
      exact absurd before (by simp [Phase.resume])
    · exact after.trans (before.symm.trans resume)

theorem running (off : stack ≠ .isrExit) : ContextOk ⟨stack, .running⟩ :=
  ⟨fun _ _ eq => absurd eq (by simp [Phase.resume]), fun exit => absurd exit off⟩

theorem halted : ContextOk ⟨stack, .halted⟩ :=
  ⟨fun _ _ eq => absurd eq (by simp [Phase.resume]), fun _ => .inl rfl⟩

theorem exitLoop (resume : p.resume = some .exitLoop) : ContextOk ⟨stack, p⟩ :=
  ⟨fun _ _ eq => absurd (resume.symm.trans eq) (by simp), fun _ => .inr resume⟩

/-- Away from the exit stack, only a wait has something to say. -/
theorem calling (off : stack ≠ .isrExit)
    (wait : ∀ tid wake, k = .wait (some tid) wake → stack = .thread tid) :
    ContextOk ⟨stack, .calling k⟩ :=
  ⟨fun tid wake eq => wait tid wake (Option.some.inj eq), fun exit => absurd exit off⟩

end ContextOk

/-! ## Switching -/

section Switching

variable {m : Machine}

theorem switchContext_isSome (old : Option Nat) (next : Nat) (after : Phase) (t : Nat) :
    ((switchContext m old next after).sched.threadList t).isSome =
      (m.sched.threadList t).isSome := by
  have stored : ((storeContext m old after).threadList t).isSome =
      (m.sched.threadList t).isSome := by
    unfold storeContext
    cases old <;> simp
  unfold switchContext
  dsimp only
  split <;> exact stored

/-- The thread that was picked runs on its own stack. -/
theorem switchContext_stackOk {old : Option Nat} {next : Nat} {k : Resume} {after : Phase}
    (ok : StackOk m.sched ⟨m.cpu.stack, .switching old next k⟩)
    (context : ContextOk ⟨m.cpu.stack, after⟩) (still : after.isSwitching = false) :
    StackOk (switchContext m old next after).sched (switchContext m old next after).cpu := by
  obtain ⟨⟨th, eq, running⟩, current, olds⟩ := ok.switching old next k rfl
  -- storing the context of the old thread
  have stored : (storeContext m old after).currentThreadId = some next ∧
      (∃ th, (storeContext m old after).threadList next = some th ∧ th.state = .running) ∧
      ∀ t th, (storeContext m old after).threadList t = some th → SavedOk m.cpu t th := by
    unfold storeContext
    cases old with
    | none =>
        refine ⟨current, ⟨th, eq, running⟩, fun t th eq => ?_⟩
        obtain ⟨context', switched, own⟩ := ok.saved t th eq
        exact ⟨context', switched, own⟩
    | some o =>
        refine ⟨current, ?_, fun t th' eq' => ?_⟩
        · rcases eq_or_ne next o with rfl | ne
          · refine ⟨{ th with rsp := ⟨m.cpu.stack, after⟩ }, ?_, running⟩
            rw [SchedState.modify_threadList_self, eq, Option.map_some]
          · exact ⟨th, (SchedState.modify_threadList_of_ne _ _ _ ne).trans eq, running⟩
        · rcases eq_or_ne t o with rfl | ne
          · rw [SchedState.modify_threadList_self] at eq'
            obtain ⟨th₀, eq₀, rfl⟩ := Option.map_eq_some_iff.1 eq'
            refine ⟨context, still, (olds t rfl).imp id fun exit => ⟨exit.2 th₀ eq₀, ?_⟩⟩
            have exit' : m.cpu.stack = .isrExit := exit.1
            rw [exit']
            simp
          · rw [SchedState.modify_threadList_of_ne _ _ _ ne] at eq'
            obtain ⟨context', switched, own⟩ := ok.saved t th' eq'
            exact ⟨context', switched, own⟩
  unfold switchContext
  dsimp only
  generalize storeContext m old after = s at stored ⊢
  obtain ⟨currentS, ⟨thN, eqN, runningN⟩, savedS⟩ := stored
  rw [eqN]
  dsimp only
  obtain ⟨contextN, switchedN, ownN⟩ := savedS next thN eqN
  have own : thN.rsp.stack = .thread next := by
    rcases ownN with own | ⟨dead, -⟩
    · exact own
    · rw [runningN] at dead
      exact absurd dead (by simp)
  refine ⟨contextN, fun t th eq => ?_, fun t onT => ?_, fun t th _ onT eq dead => ?_,
    fun t _ eq => .inl ?_, fun old next k switching => ?_⟩
  · obtain ⟨context', switched, own'⟩ := savedS t th eq
    refine ⟨context', switched, own'.imp id fun off => ⟨off.1, fun onT => ?_⟩⟩
    obtain rfl : next = t := Stack.thread.inj (own.symm.trans onT)
    obtain rfl := Option.some.inj (eqN.symm.trans eq)
    rw [runningN] at off
    exact absurd off.1 (by simp)
  · obtain rfl : next = t := Stack.thread.inj (own.symm.trans onT)
    exact ⟨thN, eqN⟩
  · obtain rfl : next = t := Stack.thread.inj (own.symm.trans onT)
    exact currentS
  · obtain rfl : next = t := Option.some.inj (currentS.symm.trans eq)
    exact own
  · rw [switching] at switchedN
    exact absurd switchedN (by simp [Phase.isSwitching])

theorem schedulerCall_stackOk {k : Resume} (ok : MachineOk m) (phase : m.cpu.phase = .calling k)
    (busy : ∀ t, m.cpu.stack = .thread t → isTerminated m.sched t = true →
      m.sched.rq.head.isSome = true) :
    StackOk (schedulerCall m k).sched (schedulerCall m k).cpu := by
  obtain ⟨l, w, inv, -⟩ := ok.queues
  have still : m.cpu.phase.isSwitching = false := by
    rw [phase]
    rfl
  have context : ContextOk ⟨m.cpu.stack, .calling k⟩ := phase ▸ ok.stackOk.context
  have ready : ∀ t th, m.cpu.stack = .thread t → m.sched.threadList t = some th →
      th.state = .terminated → l ≠ [] := by
    rintro t th own eq dead rfl
    have some := busy t own (by simp [isTerminated, eq, dead])
    rw [inv.ready.links.forward.head_eq] at some
    exact absurd some (by simp)
  obtain ⟨stay, switch⟩ := scheduleCore_stackOk ok.stackOk still inv ready
  unfold schedulerCall
  generalize scheduleCore m.sched = r at stay switch ⊢
  dsimp only
  cases picked : r.switchTo with
  | none => exact (stay picked).setPhase still (context.follow rfl rfl) rfl
  | some next => exact switch next picked k (context.follow rfl rfl)

theorem schedulerCall_stack (k : Resume) : (schedulerCall m k).cpu.stack = m.cpu.stack := by
  unfold schedulerCall
  dsimp only
  split <;> rfl

/-- An interrupt that reschedules finds the current thread running, on its stack. -/
theorem schedulerFromIrq_stackOk {tid : Nat} (ok : MachineOk m)
    (still : m.cpu.phase.isSwitching = false) (timed : timedThread m.sched = some tid) :
    StackOk (schedulerFromIrq m).sched (schedulerFromIrq m).cpu ∧
      ∀ t, m.cpu.stack = .thread t → ((schedulerFromIrq m).sched.threadList t).isSome = true := by
  obtain ⟨l, w, inv, -⟩ := ok.queues
  obtain ⟨current, running⟩ := Option.filter_eq_some_iff.1 timed
  have alive : ∀ t th, m.cpu.stack = .thread t → m.sched.threadList t = some th →
      th.state = .terminated → l ≠ [] := by
    intro t th own eq dead
    obtain rfl := Option.some.inj (current.symm.trans (ok.stackOk.terminated t th still own eq dead))
    simp [eq, dead] at running
  obtain ⟨stay, switch⟩ := scheduleCore_stackOk ok.stackOk still inv alive
  unfold schedulerFromIrq
  generalize scheduleCore m.sched = r at stay switch ⊢
  dsimp only
  cases picked : r.switchTo with
  | none => exact ⟨stay picked, fun t own => (stay picked).isSome own⟩
  | some next =>
      have switching := switch next picked .exitLoop (.exitLoop rfl)
      refine ⟨switchContext_stackOk (m := ⟨r.sched, m.cpu⟩) switching ok.stackOk.context still,
        fun t own => ?_⟩
      dsimp only
      rw [switchContext_isSome]
      exact switching.isSome own

end Switching

/-! ## The actions -/

section Actions

variable {m : Machine}

theorem countTick_stackOk {s : SchedState} {cpu : Context} (ok : StackOk s cpu) (tid : Nat) :
    StackOk (countTick s tid) cpu :=
  ok.modify_same (fun _ => rfl) fun _ => rfl

theorem timedThread_countTick {s : SchedState} {tid : Nat} (timed : timedThread s = some tid) :
    timedThread (countTick s tid) = some tid := by
  obtain ⟨current, running⟩ := Option.filter_eq_some_iff.1 timed
  refine Option.filter_eq_some_iff.2 ⟨current, ?_⟩
  rw [countTick, SchedState.modify_threadList_self, Option.any_map]
  exact running

theorem timerHandler_stackOk {now : Nat} (ok : MachineOk m)
    (still : timerReschedules m.sched now = true → m.cpu.phase.isSwitching = false) :
    StackOk (timerHandler m now).sched (timerHandler m now).cpu ∧
      ∀ t, m.cpu.stack = .thread t → ((timerHandler m now).sched.threadList t).isSome = true := by
  have woken := timerWake_stackOk ok.stackOk now
  have queues := timerWake_queueOk ok.queues now
  unfold timerReschedules at still
  unfold timerHandler
  dsimp only
  generalize timerWake m.sched now = s at woken queues still ⊢
  cases timed : timedThread s with
  | none => exact ⟨woken, fun t own => woken.isSome own⟩
  | some tid =>
      have counted := countTick_stackOk woken tid
      dsimp only
      split
      next used =>
        have okS : MachineOk { m with sched := countTick s tid } :=
          ⟨queues.modify_same tid fun _ => rfl, counted⟩
        refine schedulerFromIrq_stackOk okS (still ?_) (timedThread_countTick timed)
        rw [timed, Option.any_some, used]
      · exact ⟨counted, fun t own => counted.isSome own⟩

theorem timerHandlerLocked_stackOk (ok : StackOk m.sched m.cpu) :
    StackOk (timerHandlerLocked m).sched (timerHandlerLocked m).cpu ∧
      ∀ t, m.cpu.stack = .thread t → ((timerHandlerLocked m).sched.threadList t).isSome = true := by
  unfold timerHandlerLocked
  split
  · exact ⟨ok, fun t own => ok.isSome own⟩
  next tid _ =>
    have counted := countTick_stackOk ok tid
    exact ⟨counted, fun t own => counted.isSome own⟩

theorem afterScheduler_stackOk {k : Resume} (ok : StackOk m.sched m.cpu)
    (phase : m.cpu.phase = .returned k) (now : Nat) :
    StackOk (afterScheduler m k now).sched (afterScheduler m k now).cpu ∧
      (afterScheduler m k now).cpu.stack = m.cpu.stack := by
  have still : m.cpu.phase.isSwitching = false := by
    rw [phase]
    rfl
  have context : ContextOk ⟨m.cpu.stack, .returned k⟩ := phase ▸ ok.context
  -- only the exit loop runs on the exit stack
  have off : k ≠ .exitLoop → m.cpu.stack ≠ .isrExit := fun other exit => by
    rcases context.exit exit with halted | resume
    · exact absurd halted (by simp)
    · exact other (Option.some.inj resume)
  have run : k ≠ .exitLoop → StackOk m.sched ⟨m.cpu.stack, .running⟩ := fun other =>
    ok.setPhase still (.running (off other)) rfl
  have again : StackOk m.sched ⟨m.cpu.stack, .calling k⟩ :=
    ok.setPhase still (context.follow rfl rfl) rfl
  cases k with
  | network => exact ⟨run (by simp), rfl⟩
  | yieldLoop =>
      refine ⟨?_, rfl⟩
      unfold afterScheduler
      dsimp only
      split
      · exact run (by simp)
      · exact again
  | exitLoop =>
      refine ⟨?_, rfl⟩
      unfold afterScheduler
      dsimp only
      split
      · exact ok.setPhase still .halted rfl
      · exact again
  | wait tid wake =>
      unfold afterScheduler
      cases tid with
      | none => exact ⟨run (by simp), rfl⟩
      | some tid =>
          have own : m.cpu.stack = .thread tid := context.wait tid wake rfl
          cases eq : m.sched.threadList tid with
          | none =>
              simp only [eq]
              exact ⟨run (by simp), trivial⟩
          | some t =>
              simp only [eq]
              split
              · exact ⟨ok, rfl⟩
              · exact ⟨waitTicksEnd_stackOk (run (by simp)) rfl own, rfl⟩

theorem threadExitSection_isSome (s : SchedState) (t : Nat) :
    ((threadExitSection s).threadList t).isSome = (s.threadList t).isSome := by
  unfold threadExitSection
  split
  · rfl
  split
  · rfl
  · rw [SchedState.setState, SchedState.isSome_modify, rqRemove_threadList]

/-- The thread that a fault ends is over. -/
theorem threadExitSection_terminated {s : SchedState} {tid : Nat}
    (current : s.currentThreadId = some tid) :
    ∀ th, (threadExitSection s).threadList tid = some th → th.state = .terminated := by
  intro th eq
  unfold threadExitSection at eq
  simp only [current] at eq
  split at eq
  next none => exact absurd (none.symm.trans eq) (by simp)
  · rw [SchedState.setState, SchedState.modify_threadList_self] at eq
    obtain ⟨th', -, rfl⟩ := Option.map_eq_some_iff.1 eq
    rfl

theorem threadExitSection_currentThreadId {s : SchedState} :
    (threadExitSection s).currentThreadId = s.currentThreadId := by
  unfold threadExitSection
  split
  · rfl
  split
  · rfl
  · exact rqRemove_currentThreadId _ _

/-- A fault goes on on the exit stack, and the thread it ends is the one that was
executed. -/
theorem fault_stackOk {s : SchedState} {cpu : Context} (ok : StackOk s cpu)
    (phase : cpu.phase = .running) {tid : Nat} (current : s.currentThreadId = some tid) :
    StackOk (threadExitSection s) ⟨.isrExit, .calling .exitLoop⟩ := by
  have still : cpu.phase.isSwitching = false := by
    rw [phase]
    rfl
  have exited := threadExitSection_stackOk ok still
  have dead := threadExitSection_terminated current
  have sameCurrent : (threadExitSection s).currentThreadId = some tid :=
    threadExitSection_currentThreadId.trans current
  refine ⟨.exitLoop rfl, fun t th eq => ?_, fun t own => absurd own (by simp),
    fun t th _ own => absurd own (by simp), fun t _ eq => .inr ⟨rfl, ?_⟩,
    fun old next k switching => absurd switching (by simp)⟩
  · obtain ⟨context, switched, own⟩ := exited.saved t th eq
    exact ⟨context, switched, own.imp id fun off => ⟨off.1, by simp⟩⟩
  · obtain rfl := Option.some.inj (sameCurrent.symm.trans eq)
    exact dead

theorem runningStep_stackOk {a : Action} (ok : MachineOk m) (phase : m.cpu.phase = .running)
    (kill : ∀ tid, a = .kill tid → m.cpu.stack = .thread tid →
      m.sched.currentThreadId = some tid) :
    StackOk (runningStep m a).sched (runningStep m a).cpu ∧
      ∀ t, m.cpu.stack = .thread t → ((runningStep m a).sched.threadList t).isSome = true := by
  have still : m.cpu.phase.isSwitching = false := by
    rw [phase]
    rfl
  have off : m.cpu.stack ≠ .isrExit := fun exit => by
    rcases ok.stackOk.context.exit exit with halted | resume
    · rw [phase] at halted
      exact absurd halted (by simp)
    · rw [phase] at resume
      exact absurd resume (by simp [Phase.resume])
  -- what keeps the stack also keeps the thread on it
  have same : ∀ m' : Machine, StackOk m'.sched m'.cpu → m'.cpu.stack = m.cpu.stack →
      StackOk m'.sched m'.cpu ∧
        ∀ t, m.cpu.stack = .thread t → (m'.sched.threadList t).isSome = true :=
    fun m' ok' stack => ⟨ok', fun t own => ok'.isSome (stack.trans own)⟩
  have call : ∀ (s : SchedState) (k : Resume), StackOk s m.cpu →
      (∀ tid wake, k = .wait (some tid) wake → m.cpu.stack = .thread tid) →
      StackOk s ⟨m.cpu.stack, .calling k⟩ :=
    fun s k ok' wait => ok'.setPhase still (.calling off wait) rfl
  cases a with
  | create gotThread gotStack =>
      obtain ⟨l, w, inv, -⟩ := ok.queues
      exact same _
        (threadCreate_stackOk ok.stackOk phase (inv.fresh _ (Nat.le_refl _)) gotThread gotStack)
        rfl
  | kill tid => exact same _ (threadKill_stackOk ok.stackOk still tid (kill tid rfl)) rfl
  | yield => exact same _ (call m.sched _ ok.stackOk (by simp)) rfl
  | waitTicks now ticks =>
      unfold runningStep
      dsimp only
      split
      · exact same _ ok.stackOk rfl
      · refine same _ (call _ _ (waitTicksSection_stackOk ok.stackOk phase _) ?_) rfl
        intro tid wake eq
        exact ok.stackOk.current_stack phase (Resume.wait.inj eq).1
  | networkBlock now =>
      exact same _ (call _ _ (networkBlockSection_stackOk ok.stackOk phase now) (by simp)) rfl
  | exit => exact same _ (call _ _ (threadExitSection_stackOk ok.stackOk still) (by simp)) rfl
  | fault =>
      unfold runningStep
      dsimp only
      split
      next some =>
        obtain ⟨tid, eq⟩ := Option.isSome_iff_exists.1 some
        refine ⟨fault_stackOk ok.stackOk phase (oldThread_eq eq), fun t own => ?_⟩
        dsimp only
        rw [threadExitSection_isSome]
        exact ok.stackOk.isSome own
      · exact same _ (ok.stackOk.setPhase still .halted rfl) rfl
  | _ => exact same _ ok.stackOk rfl

/-- Every action that meets the condition keeps the invariant and spares the thread
whose stack the CPU executes on. -/
theorem machineStep_stackOk {a : Action} (ok : MachineOk m) (cond : keepsStack m a = true) :
    MachineOk (machineStep m a) ∧ SparesExecuting m a := by
  have both : (StackOk (machineStep m a).sched (machineStep m a).cpu ∧
      ∀ t, m.cpu.stack = .thread t → ((machineStep m a).sched.threadList t).isSome = true) →
      MachineOk (machineStep m a) ∧ SparesExecuting m a :=
    fun result => ⟨⟨machineStep_queueOk ok.queues a, result.1⟩, fun t own _ => result.2 t own⟩
  refine both ?_
  unfold machineStep
  split
  next now =>
    refine timerHandler_stackOk ok fun reschedules => ?_
    cases phase : m.cpu.phase with
    | switching old next k =>
        simp only [keepsStack, phase] at cond
        rw [reschedules] at cond
        exact absurd cond (by simp)
    | _ => rfl
  next => exact timerHandlerLocked_stackOk ok.stackOk
  next =>
    split
    next phase _ _ =>
      refine runningStep_stackOk ok phase fun tid eq own => ?_
      subst eq
      simp only [keepsStack, phase, own] at cond
      simpa using cond
    next k phase _ _ =>
      have busy : ∀ t, m.cpu.stack = .thread t → isTerminated m.sched t = true →
          m.sched.rq.head.isSome = true := fun t own dead => by
        simp only [keepsStack, phase, own] at cond
        exact of_decide_eq_true cond dead
      have called := schedulerCall_stackOk ok phase busy
      exact ⟨called, fun t own => called.isSome ((schedulerCall_stack k).trans own)⟩
    next old next k phase _ _ =>
      have context : ContextOk ⟨m.cpu.stack, .switching old next k⟩ := phase ▸ ok.stackOk.context
      have switching : StackOk m.sched ⟨m.cpu.stack, .switching old next k⟩ :=
        phase ▸ ok.stackOk
      refine ⟨switchContext_stackOk switching (context.follow rfl rfl) rfl, fun t own => ?_⟩
      rw [switchContext_isSome]
      exact ok.stackOk.isSome own
    next k now phase _ _ =>
      obtain ⟨ok', stack⟩ := afterScheduler_stackOk ok.stackOk phase now
      exact ⟨ok', fun t own => ok'.isSome (stack.trans own)⟩
    next => exact ⟨ok.stackOk, fun t own => ok.stackOk.isSome own⟩

end Actions

theorem bootMachine_ok : MachineOk bootMachine := by
  refine ⟨bootMachine_queueOk, .running (by simp), fun t th eq => ?_, ?_, ?_, ?_, ?_⟩
  · exact absurd eq (by simp [bootMachine, threadInit])
  all_goals simp [bootMachine, threadInit]

/-- Along a run whose actions all meet the condition, no action frees the thread whose
stack the CPU executes on, and at the end that thread is there. -/
theorem executing_thread_spared_along_run (as : List Action)
    (cond : AllSteps machineStep (fun m a => keepsStack m a = true) bootMachine as) :
    AllSteps machineStep SparesExecuting bootMachine as ∧
      ∀ t, (run machineStep bootMachine as).cpu.stack = .thread t →
        ((run machineStep bootMachine as).sched.threadList t).isSome = true := by
  have keep : ∀ m a, MachineOk m → keepsStack m a = true → MachineOk (machineStep m a) :=
    fun _ _ ok cond => (machineStep_stackOk ok cond).1
  have spares : ∀ m a, MachineOk m → keepsStack m a = true → SparesExecuting m a :=
    fun _ _ ok cond => (machineStep_stackOk ok cond).2
  refine ⟨AllSteps.of_invariant keep spares bootMachine_ok cond, fun t own => ?_⟩
  exact (run_invariant keep bootMachine_ok cond).stackOk.isSome own

/-- Two threads; the first one runs, yields to the second, and that one exits. -/
def yieldAndExit : List Action :=
  [.create true true, .create true true, .yield, .schedule, .switch, .yield, .schedule, .switch,
    .exit, .schedule, .switch]

/-- The condition holds along a run in which a thread exits while another one is ready. -/
theorem executing_thread_spared_yieldAndExit :
    AllSteps machineStep SparesExecuting bootMachine yieldAndExit ∧
      ∀ t, (run machineStep bootMachine yieldAndExit).cpu.stack = .thread t →
        ((run machineStep bootMachine yieldAndExit).sched.threadList t).isSome = true :=
  executing_thread_spared_along_run yieldAndExit (by decide +kernel)

/-- One thread runs and exits while the ready queue is empty: the first call of
`scheduler()` forgets it, and it goes on in the loop of `thread_exit_current`. -/
def lastExit : List Action :=
  [.create true true, .yield, .schedule, .switch, .exit, .schedule, .proceed 0]

/-- The next call of `scheduler()` frees the stack it is made on. -/
theorem last_exit_frees_executing :
    ¬ AllSteps machineStep SparesExecuting bootMachine (lastExit ++ [.schedule]) := by
  intro spares
  have last := ((allSteps_append SparesExecuting bootMachine lastExit [.schedule]).1 spares).2.1
  have freed := last 0 (by decide +kernel) (by decide +kernel)
  exact absurd freed (by decide +kernel)

end NTux.Sched
