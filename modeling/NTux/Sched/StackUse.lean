import NTux.Sched.ReadyQueue

/-!
# Stacks in use

The reaper frees the stack of every terminated thread but the current one.  That is
sound as long as the CPU executes on the stack of the current thread, and the two can
come apart:

* `schedule_core` finds nothing to run and forgets the current thread, although the
  CPU goes on on its stack; if that thread is terminated, the next call of
  `scheduler()` frees the stack it runs on;
* a thread that was forgotten so kills itself;
* a timer interrupt reschedules after `scheduler()` has made the next thread current
  and before it has switched to it.

`StackOk` relates the scheduler's records to the context the CPU executes and to the
contexts stored in the threads.  Every action that meets `KeepsStack`, that is, none
of the three above, keeps it.
-/

namespace NTux.Sched

open NTux.Lib

/-! ## The invariant -/

/-- What the code before or behind a call of `scheduler()` does next. -/
def Phase.resume : Phase → Option Resume
  | .calling k => some k
  | .switching _ _ k => some k
  | .returned k => some k
  | _ => none

/-- Between the unlock of `scheduler()` and its switch. -/
def Phase.isSwitching : Phase → Bool
  | .switching _ _ _ => true
  | _ => false

/-- A thread waits for its own ticks only, and the exit stack is only for exiting. -/
structure ContextOk (c : Context) : Prop where
  wait : ∀ tid wake, c.phase.resume = some (.wait (some tid) wake) → c.stack = .thread tid
  exit : c.stack = .isrExit → c.phase = .halted ∨ c.phase.resume = some .exitLoop

/-- The context stored in a thread is one of its own stack, unless the thread left it
for the exit stack; then it is dead, and nothing runs on its stack any more. -/
structure SavedOk (cpu : Context) (t : Nat) (th : Thread) : Prop where
  context : ContextOk th.rsp
  switched : th.rsp.phase.isSwitching = false
  own : th.rsp.stack = .thread t ∨ (th.state = .terminated ∧ cpu.stack ≠ .thread t)

/-- The thread `t` is the one the CPU executes, or the one whose exit it executes. -/
def Executing (s : SchedState) (cpu : Context) (t : Nat) : Prop :=
  cpu.stack = .thread t ∨
    (cpu.stack = .isrExit ∧ ∀ th, s.threadList t = some th → th.state = .terminated)

/-- The records of the scheduler fit the context the CPU executes. -/
structure StackOk (s : SchedState) (cpu : Context) : Prop where
  context : ContextOk cpu
  saved : ∀ t th, s.threadList t = some th → SavedOk cpu t th
  alive : ∀ t, cpu.stack = .thread t → ∃ th, s.threadList t = some th
  terminated : ∀ t th, cpu.phase.isSwitching = false → cpu.stack = .thread t →
    s.threadList t = some th → th.state = .terminated → s.currentThreadId = some t
  current : ∀ t, cpu.phase.isSwitching = false → s.currentThreadId = some t → Executing s cpu t
  switching : ∀ old next k, cpu.phase = .switching old next k →
    (∃ th, s.threadList next = some th ∧ th.state = .running) ∧
      s.currentThreadId = some next ∧ ∀ t, old = some t → Executing s cpu t

namespace StackOk

variable {s s' : SchedState} {cpu : Context} {t : Nat} {th : Thread} {f : Thread → Thread}

/-- Only the thread table and the current thread matter. -/
theorem congr (ok : StackOk s cpu) (list : s'.threadList = s.threadList)
    (current : s'.currentThreadId = s.currentThreadId) : StackOk s' cpu := by
  refine ⟨ok.context, ?_, ?_, ?_, ?_, ?_⟩
  · rw [list]
    exact ok.saved
  · rw [list]
    exact ok.alive
  · rw [list, current]
    exact ok.terminated
  · unfold Executing
    rw [list, current]
    exact ok.current
  · unfold Executing
    rw [list, current]
    exact ok.switching

/-- In its own code, the CPU is on the stack of the current thread. -/
theorem current_stack (ok : StackOk s cpu) (phase : cpu.phase = .running)
    (current : s.currentThreadId = some t) : cpu.stack = .thread t := by
  rcases ok.current t (by rw [phase]; rfl) current with own | ⟨exit, -⟩
  · exact own
  · rcases ok.context.exit exit with halted | resume
    · rw [phase] at halted
      exact absurd halted (by simp)
    · rw [phase] at resume
      exact absurd resume (by simp [Phase.resume])

/-- Move on in the code, on the same stack. -/
theorem setPhase (ok : StackOk s cpu) (phase : cpu.phase.isSwitching = false) {p : Phase}
    (context : ContextOk ⟨cpu.stack, p⟩) (still : p.isSwitching = false) :
    StackOk s ⟨cpu.stack, p⟩ := by
  refine ⟨context, fun t th eq => ?_, ok.alive, fun t th _ => ok.terminated t th phase,
    fun t _ => ok.current t phase, fun old next k switching => ?_⟩
  · obtain ⟨context', switched, own⟩ := ok.saved t th eq
    exact ⟨context', switched, own⟩
  · dsimp only at switching
    rw [switching] at still
    exact absurd still (by simp [Phase.isSwitching])

/-- A change to a thread's state: what is dead stays dead unless the CPU executes the
thread, what ends is the current thread if the CPU executes it, and what is about to
be switched to keeps running. -/
theorem modify (ok : StackOk s cpu)
    (rsp : ∀ th, (f th).rsp = th.rsp)
    (stays : ∀ th, s.threadList t = some th → th.state = .terminated →
      (f th).state = .terminated ∨ cpu.stack = .thread t)
    (ends : ∀ th, s.threadList t = some th → (f th).state = .terminated →
      th.state = .terminated ∨ (cpu.phase.isSwitching = false ∧
        (cpu.stack = .thread t → s.currentThreadId = some t)))
    (runs : ∀ th, s.threadList t = some th → cpu.phase.isSwitching = true →
      th.state = .running → (f th).state = .running) :
    StackOk (s.modify t f) cpu := by
  have cases' : ∀ u th, (s.modify t f).threadList u = some th →
      (u ≠ t ∧ s.threadList u = some th) ∨
        (u = t ∧ ∃ th', s.threadList t = some th' ∧ f th' = th) := by
    intro u th eq
    rcases eq_or_ne u t with rfl | ne
    · rw [SchedState.modify_threadList_self] at eq
      exact .inr ⟨rfl, Option.map_eq_some_iff.1 eq⟩
    · rw [SchedState.modify_threadList_of_ne _ _ _ ne] at eq
      exact .inl ⟨ne, eq⟩
  have made : ∀ u th, s.threadList u = some th →
      ∃ th', (s.modify t f).threadList u = some th' ∧ (u ≠ t → th' = th) ∧
        (u = t → th' = f th) := by
    intro u th eq
    rcases eq_or_ne u t with rfl | ne
    · refine ⟨f th, ?_, fun ne => absurd rfl ne, fun _ => rfl⟩
      rw [SchedState.modify_threadList_self, eq, Option.map_some]
    · refine ⟨th, ?_, fun _ => rfl, fun same => absurd same ne⟩
      rw [SchedState.modify_threadList_of_ne _ _ _ ne, eq]
  have executing : ∀ u, Executing s cpu u → Executing (s.modify t f) cpu u := by
    rintro u (own | ⟨exit, dead⟩)
    · exact .inl own
    · refine .inr ⟨exit, fun th eq => ?_⟩
      obtain ⟨-, eq'⟩ | ⟨rfl, th', eq', rfl⟩ := cases' u th eq
      · exact dead th eq'
      · rcases stays th' eq' (dead th' eq') with state | own
        · exact state
        · rw [own] at exit
          exact absurd exit (by simp)
  refine ⟨ok.context, fun u th eq => ?_, fun u own => ?_, fun u th phase own eq state => ?_,
    fun u phase eq => executing u (ok.current u phase eq), fun old next k phase => ?_⟩
  · obtain ⟨-, eq'⟩ | ⟨rfl, th', eq', rfl⟩ := cases' u th eq
    · exact ok.saved u th eq'
    · obtain ⟨context, switched, own⟩ := ok.saved u th' eq'
      rw [← rsp th'] at context switched own
      refine ⟨context, switched, own.imp id ?_⟩
      rintro ⟨dead, off⟩
      exact ⟨(stays th' eq' dead).resolve_right off, off⟩
  · obtain ⟨th, eq⟩ := ok.alive u own
    obtain ⟨th', eq', -⟩ := made u th eq
    exact ⟨th', eq'⟩
  · obtain ⟨-, eq'⟩ | ⟨rfl, th', eq', rfl⟩ := cases' u th eq
    · exact ok.terminated u th phase own eq' state
    · rcases ends th' eq' state with dead | ⟨-, current⟩
      · exact ok.terminated u th' phase own eq' dead
      · exact current own
  · obtain ⟨⟨th, eq, state⟩, current, olds⟩ := ok.switching old next k phase
    refine ⟨?_, current, fun u eqU => executing u (olds u eqU)⟩
    obtain ⟨th', eq', other, same⟩ := made next th eq
    refine ⟨th', eq', ?_⟩
    rcases eq_or_ne next t with rfl | ne
    · rw [same rfl]
      exact runs th eq (by rw [phase]; rfl) state
    · rw [other ne, state]

/-- A change that leaves the state alone. -/
theorem modify_same (ok : StackOk s cpu) (rsp : ∀ th, (f th).rsp = th.rsp)
    (same : ∀ th, (f th).state = th.state) : StackOk (s.modify t f) cpu :=
  ok.modify rsp (fun th _ dead => .inl (by rw [same, dead]))
    (fun th _ dead => .inl (by rw [← same, dead])) fun th _ _ running => by rw [same, running]

/-- A thread that is not executed goes. -/
theorem erase (ok : StackOk s cpu) (phase : cpu.phase.isSwitching = false)
    (off : cpu.stack ≠ .thread t) (list : s'.threadList = Function.update s.threadList t none)
    (current : s'.currentThreadId = s.currentThreadId) : StackOk s' cpu := by
  have kept : ∀ u th, s'.threadList u = some th → s.threadList u = some th := by
    intro u th eq
    rw [list] at eq
    rcases eq_or_ne u t with rfl | ne
    · simp at eq
    · rwa [Function.update_of_ne ne] at eq
  refine ⟨ok.context, fun u th eq => ok.saved u th (kept u th eq), fun u own => ?_,
    fun u th phase own eq => ?_, fun u phase eq => ?_, fun old next k switching => ?_⟩
  · have ne : u ≠ t := by
      rintro rfl
      exact off own
    rw [list, Function.update_of_ne ne]
    exact ok.alive u own
  · rw [current]
    exact ok.terminated u th phase own (kept u th eq)
  · rw [current] at eq
    exact (ok.current u phase eq).imp id fun exit => ⟨exit.1, fun th eq => exit.2 th (kept u th eq)⟩
  · rw [switching] at phase
    exact absurd phase (by simp [Phase.isSwitching])

end StackOk

/-! ## The sections -/

section Sections

variable {s : SchedState} {cpu : Context}

theorem threadCreate_stackOk (ok : StackOk s cpu) (phase : cpu.phase = .running)
    (fresh : s.threadList s.nextThreadId = none) (gotThread gotStack : Bool) :
    StackOk (threadCreate s gotThread gotStack).2 cpu := by
  unfold threadCreate
  split
  · exact ok
  split
  · exact ok
  dsimp only
  split
  · exact ok.congr rfl rfl
  set new := s.nextThreadId
  have kept : ∀ t th, Function.update s.threadList new (some (threadInitCommon new)) t = some th →
      (t = new ∧ th = threadInitCommon new) ∨ s.threadList t = some th := by
    intro t th eq
    rcases eq_or_ne t new with rfl | ne
    · rw [Function.update_self] at eq
      exact .inl ⟨rfl, (Option.some.inj eq).symm⟩
    · rw [Function.update_of_ne ne] at eq
      exact .inr eq
  have running : cpu.phase.isSwitching = false := by
    rw [phase]
    rfl
  have made : StackOk { s with
      nextThreadId := new + 1
      threadList := Function.update s.threadList new (some (threadInitCommon new))
      rq := s.rq.reset new
      wakeList := s.wakeList.reset new } cpu := by
    refine ⟨ok.context, fun t th eq => ?_, fun t own => ?_, fun t th phase own eq state => ?_,
      fun t phase' eq => .inl (ok.current_stack phase eq), fun old next k switching => ?_⟩
    · obtain ⟨rfl, rfl⟩ | eq' := kept t th eq
      · exact ⟨⟨by simp [threadInitCommon, Phase.resume], by simp [threadInitCommon]⟩, rfl,
          .inl rfl⟩
      · exact ok.saved t th eq'
    · obtain ⟨th, eq⟩ := ok.alive t own
      have ne : t ≠ new := by
        rintro rfl
        rw [fresh] at eq
        exact absurd eq (by simp)
      exact ⟨th, (Function.update_of_ne ne _ _).trans eq⟩
    · obtain ⟨rfl, rfl⟩ | eq' := kept t th eq
      · exact absurd state (by simp [threadInitCommon])
      · exact ok.terminated t th phase own eq' state
    · rw [switching] at running
      exact absurd running (by simp [Phase.isSwitching])
  exact made.congr (rqEnqueue_threadList _ _) (rqEnqueue_currentThreadId _ _)

/-- The CPU may end any thread but one that it executes and that is not current. -/
theorem terminate_stackOk {t : Nat} (ok : StackOk s cpu) (phase : cpu.phase.isSwitching = false)
    (current : cpu.stack = .thread t → s.currentThreadId = some t) :
    StackOk (s.setState t .terminated) cpu :=
  ok.modify (fun _ => rfl) (fun _ _ _ => .inl rfl) (fun _ _ _ => .inr ⟨phase, current⟩)
    fun _ _ switching => absurd switching (by simp [phase])

theorem threadKill_stackOk (ok : StackOk s cpu) (phase : cpu.phase.isSwitching = false)
    (tid : Nat) (current : cpu.stack = .thread tid → s.currentThreadId = some tid) :
    StackOk (threadKill s tid).2 cpu := by
  unfold threadKill
  split
  · exact ok
  split
  · exact ok
  next t eq =>
    have off : ∀ s' : SchedState, s'.threadList = s.threadList →
        s'.currentThreadId = s.currentThreadId →
        StackOk ((rqRemove (wakeListRemove s' tid) tid).setState tid .terminated) cpu := by
      intro s' list sameCurrent
      have removed : StackOk (rqRemove (wakeListRemove s' tid) tid) cpu :=
        ok.congr ((rqRemove_threadList _ _).trans list)
          ((rqRemove_currentThreadId _ _).trans sameCurrent)
      refine terminate_stackOk removed phase fun own => ?_
      rw [rqRemove_currentThreadId]
      exact sameCurrent.trans (current own)
    dsimp only
    split
    · exact off _ rfl rfl
    · exact off _ rfl rfl

theorem threadExitSection_stackOk (ok : StackOk s cpu) (phase : cpu.phase.isSwitching = false) :
    StackOk (threadExitSection s) cpu := by
  unfold threadExitSection
  split
  · exact ok
  next tid current =>
    split
    · exact ok
    · have removed : StackOk (rqRemove s tid) cpu :=
        ok.congr (rqRemove_threadList _ _) (rqRemove_currentThreadId _ _)
      refine terminate_stackOk removed phase fun _ => ?_
      rw [rqRemove_currentThreadId, current]

/-- The thread that is executed may enter any other state. -/
theorem revive_stackOk {t : Nat} {f : Thread → Thread} (ok : StackOk s cpu)
    (phase : cpu.phase.isSwitching = false) (own : cpu.stack = .thread t)
    (rsp : ∀ th, (f th).rsp = th.rsp) (alive : ∀ th, (f th).state ≠ .terminated) :
    StackOk (s.modify t f) cpu :=
  ok.modify rsp (fun _ _ _ => .inr own) (fun th _ dead => absurd dead (alive th))
    fun _ _ switching => absurd switching (by simp [phase])

theorem markBlocked_stackOk {tid : Nat} (ok : StackOk s cpu) (phase : cpu.phase.isSwitching = false)
    (own : cpu.stack = .thread tid) : StackOk (markBlocked s tid) cpu := by
  have blocked : StackOk (s.setState tid .blocked) cpu :=
    revive_stackOk ok phase own (fun _ => rfl) fun _ => by simp
  exact blocked.congr (rqRemove_threadList _ _) (rqRemove_currentThreadId _ _)

theorem waitTicksSection_stackOk (ok : StackOk s cpu) (phase : cpu.phase = .running)
    (wake : Nat) : StackOk (waitTicksSection s wake) cpu := by
  unfold waitTicksSection
  split
  · exact ok
  next tid current =>
    split
    · exact ok
    · have timed : StackOk (s.modify tid fun t => { t with wakeTick := wake }) cpu :=
        ok.modify_same (fun _ => rfl) fun _ => rfl
      dsimp only
      split
      · exact markBlocked_stackOk timed (by rw [phase]; rfl) (ok.current_stack phase current)
      · exact timed

theorem networkBlockSection_stackOk (ok : StackOk s cpu) (phase : cpu.phase = .running)
    (now : Nat) : StackOk (networkBlockSection s now) cpu := by
  unfold networkBlockSection
  split
  · exact ok
  next tid current =>
    split
    · exact ok
    · split
      · have timed : StackOk (s.modify tid fun t => { t with wakeTick := tickAfter now 1 }) cpu :=
          ok.modify_same (fun _ => rfl) fun _ => rfl
        exact markBlocked_stackOk timed (by rw [phase]; rfl) (ok.current_stack phase current)
      · exact ok

theorem waitTicksEnd_stackOk {tid : Nat} (ok : StackOk s cpu)
    (phase : cpu.phase.isSwitching = false) (own : cpu.stack = .thread tid) :
    StackOk (waitTicksEnd s tid) cpu := by
  have running : StackOk ((wakeListRemove s tid).modify tid
      fun t => { t with state := .running, wakeTick := 0 }) cpu :=
    revive_stackOk (ok.congr rfl rfl) phase own (fun _ => rfl) fun _ => by simp
  have removed := running.congr (rqRemove_threadList _ tid) (rqRemove_currentThreadId _ tid)
  refine ⟨removed.context, removed.saved, removed.alive, fun t th _ own' _ _ => ?_,
    fun t _ eq => .inl ?_, fun old next k switching => ?_⟩
  · rw [own] at own'
    rw [← Stack.thread.inj own']
    rfl
  · obtain rfl : tid = t := Option.some.inj eq
    exact own
  · rw [switching] at phase
    exact absurd phase (by simp [Phase.isSwitching])

theorem timerWakeOne_stackOk (ok : StackOk s cpu) (now t : Nat) :
    StackOk (timerWakeOne s now t) cpu := by
  unfold timerWakeOne
  split
  · exact ok
  next th eq =>
    split
    next due =>
      have blocked : ∀ th', s.threadList t = some th' → th'.state = .blocked := by
        intro th' eq'
        obtain rfl := Option.some.inj (eq.symm.trans eq')
        exact due.1
      have woken : StackOk (s.modify t fun th => { th with state := .ready, wakeTick := 0 }) cpu := by
        refine ok.modify (fun _ => rfl) (fun th' eq' dead => ?_) (fun th' eq' dead => ?_)
          fun th' eq' _ running => ?_
        · rw [blocked th' eq'] at dead
          exact absurd dead (by simp)
        · exact absurd dead (by simp)
        · rw [blocked th' eq'] at running
          exact absurd running (by simp)
      have queued := woken.congr (rqEnqueue_threadList _ t) (rqEnqueue_currentThreadId _ t)
      dsimp only
      split
      · exact queued.congr rfl rfl
      · exact queued.congr rfl rfl
    · exact ok

theorem timerWake_stackOk (ok : StackOk s cpu) (now : Nat) : StackOk (timerWake s now) cpu :=
  timerWake_induction (P := fun s => StackOk s cpu) (fun _ t ok => timerWakeOne_stackOk ok now t) ok

/-- The reaper spares the thread that is executed, because it is the current one. -/
theorem reapOne_stackOk (ok : StackOk s cpu) (phase : cpu.phase.isSwitching = false) (i : Nat) :
    StackOk (reapOne s i) cpu := by
  unfold reapOne
  split
  · exact ok
  next t eq =>
    split
    · exact ok
    next state =>
      split
      · exact ok
      next other =>
        have off : cpu.stack ≠ .thread i := fun own =>
          other (ok.terminated i t phase own eq (not_not.1 state))
        refine ok.erase phase off ?_ (rqRemove_currentThreadId _ _)
        rw [← rqRemove_threadList s i]

theorem threadReapTerminated_stackOk (ok : StackOk s cpu) (phase : cpu.phase.isSwitching = false) :
    StackOk (threadReapTerminated s) cpu :=
  threadReapTerminated_induction (P := fun s => StackOk s cpu)
    (fun _ i ok => reapOne_stackOk ok phase i) ok

/-- Requeueing the current thread makes no thread anything but ready. -/
theorem requeueOld_threadList {t : Nat} {th : Thread} (eq : (requeueOld s).threadList t = some th)
    (state : th.state ≠ .ready) : s.threadList t = some th := by
  unfold requeueOld at eq
  split at eq
  · exact eq
  next tid current =>
    split at eq
    · split at eq
      · rw [rqEnqueue_threadList] at eq
        rcases eq_or_ne t tid with rfl | ne
        · rw [SchedState.setState, SchedState.modify_threadList_self] at eq
          obtain ⟨th', -, rfl⟩ := Option.map_eq_some_iff.1 eq
          exact absurd rfl state
        · rwa [SchedState.setState, SchedState.modify_threadList_of_ne _ _ _ ne] at eq
      · exact eq
    · exact eq

theorem requeueOld_stackOk (ok : StackOk s cpu) (phase : cpu.phase.isSwitching = false) :
    StackOk (requeueOld s) cpu := by
  unfold requeueOld
  split
  · exact ok
  next tid current =>
    split
    next t eq =>
      split
      next running =>
        have ready : StackOk (s.setState tid .ready) cpu := by
          refine ok.modify (fun _ => rfl) (fun th eq' dead => ?_)
            (fun th _ dead => absurd dead (by simp))
            fun _ _ switching => absurd switching (by simp [phase])
          obtain rfl := Option.some.inj (eq.symm.trans eq')
          rw [running] at dead
          exact absurd dead (by simp)
        exact ready.congr (rqEnqueue_threadList _ _) (rqEnqueue_currentThreadId _ _)
      · exact ok
    · exact ok

/-- The current thread may be forgotten if the one that is executed goes on. -/
theorem forget_stackOk (ok : StackOk s cpu) (phase : cpu.phase.isSwitching = false)
    (goesOn : ∀ t th, cpu.stack = .thread t → s.threadList t = some th → th.state ≠ .terminated) :
    StackOk { s with currentThreadId := none } cpu := by
  refine ⟨ok.context, ok.saved, ok.alive, fun t th _ own eq dead => absurd dead (goesOn t th own eq),
    fun t _ eq => absurd eq (by simp), fun old next k switching => ?_⟩
  rw [switching] at phase
  exact absurd phase (by simp [Phase.isSwitching])

/-- A ready thread is not terminated, so it may run. -/
theorem resume_stackOk {next : Nat} {th : Thread} {f : Thread → Thread} (ok : StackOk s cpu)
    (eq : s.threadList next = some th) (ready : th.state = .ready)
    (rsp : ∀ th, (f th).rsp = th.rsp) (runs : ∀ th, (f th).state = .running) :
    StackOk (s.modify next f) cpu := by
  refine ok.modify rsp (fun th' eq' dead => ?_) (fun th' _ dead => ?_) fun th' _ _ _ => runs th'
  · obtain rfl := Option.some.inj (eq.symm.trans eq')
    rw [ready] at dead
    exact absurd dead (by simp)
  · rw [runs] at dead
    exact absurd dead (by simp)

/-- A ready thread becomes the one to switch to. -/
theorem pick_stackOk {next : Nat} {th : Thread} {f : Thread → Thread} {old : Option Nat}
    {k : Resume} (ok : StackOk s cpu) (phase : cpu.phase.isSwitching = false)
    (eq : s.threadList next = some th) (ready : th.state = .ready)
    (rsp : ∀ th, (f th).rsp = th.rsp) (runs : ∀ th, (f th).state = .running)
    (oldCurrent : ∀ t, old = some t → s.currentThreadId = some t)
    (context : ContextOk ⟨cpu.stack, .switching old next k⟩) :
    StackOk { s.modify next f with currentThreadId := some next }
      ⟨cpu.stack, .switching old next k⟩ := by
  have eqNext : (s.modify next f).threadList next = some (f th) := by
    rw [SchedState.modify_threadList_self, eq, Option.map_some]
  have moved := resume_stackOk ok eq ready rsp runs
  refine ⟨context, fun t th eq => ?_, moved.alive, fun t th still => absurd still (by
    simp [Phase.isSwitching]), fun t still => absurd still (by simp [Phase.isSwitching]),
    fun old' next' k' switching => ?_⟩
  · obtain ⟨context', switched, own⟩ := moved.saved t th eq
    exact ⟨context', switched, own⟩
  · obtain ⟨rfl, rfl, rfl⟩ := Phase.switching.inj switching
    exact ⟨⟨f th, eqNext, runs th⟩, rfl, fun t eqT => moved.current t phase (oldCurrent t eqT)⟩

theorem oldThread_eq {t : Nat} (eq : oldThread s = some t) : s.currentThreadId = some t :=
  (Option.filter_eq_some_iff.1 eq).1

/-- `schedule_core` either leaves the CPU where it is or picks a thread to switch to.  It
must find one if the thread that is executed is dead (`busy`). -/
theorem scheduleCore_stackOk {l w : List Nat} (ok : StackOk s cpu)
    (phase : cpu.phase.isSwitching = false) (queues : QueueInv s l w)
    (busy : ∀ t th, cpu.stack = .thread t → s.threadList t = some th → th.state = .terminated →
      l ≠ []) :
    ((scheduleCore s).switchTo = none → StackOk (scheduleCore s).sched cpu) ∧
      ∀ next, (scheduleCore s).switchTo = some next → ∀ k,
        ContextOk ⟨cpu.stack, .switching (scheduleCore s).old next k⟩ →
        StackOk (scheduleCore s).sched ⟨cpu.stack, .switching (scheduleCore s).old next k⟩ := by
  have reaped := threadReapTerminated_stackOk ok phase
  have ended : ∀ t th, (threadReapTerminated s).threadList t = some th →
      s.threadList t = some th := fun t th =>
    threadReapTerminated_induction (P := fun s' => s'.threadList t = some th →
      s.threadList t = some th) (fun s' i keep eq => keep (reapOne_threadList eq)) id
  obtain ⟨l', pre, inv⟩ := requeueOld_queueInv (threadReapTerminated_queueInv queues)
  have requeued := requeueOld_stackOk reaped phase
  have terminated : ∀ t th, (requeueOld (threadReapTerminated s)).threadList t = some th →
      th.state = .terminated → (threadReapTerminated s).threadList t = some th :=
    fun t th eq dead => requeueOld_threadList eq (by simp [dead])
  have current := requeueOld_currentThreadId (s := threadReapTerminated s)
  have old : ∀ t, oldThread (threadReapTerminated s) = some t →
      (requeueOld (threadReapTerminated s)).currentThreadId = some t := fun t eq =>
    current.trans (oldThread_eq eq)
  unfold scheduleCore
  dsimp only
  generalize requeueOld (threadReapTerminated s) = s' at inv current old terminated requeued ⊢
  generalize oldThread (threadReapTerminated s) = o at old ⊢
  cases l' with
  | nil =>
      rw [inv.rqDequeue_nil]
      refine ⟨fun _ => forget_stackOk requeued phase fun t th own eq dead => ?_,
        fun next eq => absurd eq (by simp)⟩
      refine busy t th own (ended t th (terminated t th eq dead)) dead ?_
      exact List.prefix_nil.1 pre
  | cons next l' =>
      obtain ⟨rq, eq, -⟩ := inv.rqDequeue
      obtain ⟨th, eqN, ready⟩ := inv.readyState next List.mem_cons_self
      have popped : StackOk { s' with rq := rq, rqCount := s'.rqCount - 1 } cpu :=
        requeued.congr rfl rfl
      rw [eq]
      dsimp only
      split
      · refine ⟨fun _ => ?_, fun next eq => absurd eq (by simp)⟩
        exact resume_stackOk popped eqN ready (fun _ => rfl) fun _ => rfl
      · refine ⟨fun eq => absurd eq (by simp), fun next' eqNext k context => ?_⟩
        obtain rfl := Option.some.inj eqNext
        exact pick_stackOk popped phase eqN ready (fun _ => rfl) (fun _ => rfl) old context

end Sections

end NTux.Sched
