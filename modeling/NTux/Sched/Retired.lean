import NTux.Sched.StackRun

/-!
# Threads that are over

A thread is `Over` once it is terminated or no longer in the table.  No section of the
scheduler brings such a thread back, apart from the ones that set the state of a thread
without looking at it: the two that block the current thread, and the end of a wait.
`Retires exempt s s'` says that every thread that is over in `s` is over in `s'`, unless
it is `exempt`, as the one is that `thread_create` makes.
-/

namespace NTux.Sched

open NTux.Lib

/-- The thread is terminated, or not in the table. -/
def Over (s : SchedState) (t : Nat) : Prop :=
  ∀ th, s.threadList t = some th → th.state = .terminated

/-- The id has been given out, and its thread is over. -/
def Retired (s : SchedState) (t : Nat) : Prop := t < s.nextThreadId ∧ Over s t

/-- Ids are not taken back, and what is over stays so, but for the exempt threads. -/
structure Retires (exempt : Nat → Prop) (s s' : SchedState) : Prop where
  next : s.nextThreadId ≤ s'.nextThreadId
  ended : ∀ t, ¬ exempt t → Over s t → Over s' t

namespace Retires

variable {exempt : Nat → Prop} {s s' s'' : SchedState} {t : Nat} {f : Thread → Thread}

theorem refl (s : SchedState) : Retires exempt s s := ⟨Nat.le_refl _, fun _ _ ended => ended⟩

theorem trans (first : Retires exempt s s') (second : Retires exempt s' s'') :
    Retires exempt s s'' :=
  ⟨Nat.le_trans first.next second.next,
    fun t off ended => second.ended t off (first.ended t off ended)⟩

/-- Only the table and the next id matter. -/
theorem of_same (next : s'.nextThreadId = s.nextThreadId) (list : s'.threadList = s.threadList) :
    Retires exempt s s' := by
  refine ⟨Nat.le_of_eq next.symm, fun t _ ended => ?_⟩
  rw [Over, list]
  exact ended

theorem modify (stays : ∀ th, s.threadList t = some th → th.state = .terminated →
    exempt t ∨ (f th).state = .terminated) : Retires exempt s (s.modify t f) := by
  refine ⟨Nat.le_refl _, fun u off dead th eq => ?_⟩
  rcases eq_or_ne u t with rfl | ne
  · rw [SchedState.modify_threadList_self] at eq
    obtain ⟨th', eq', rfl⟩ := Option.map_eq_some_iff.1 eq
    exact (stays th' eq' (dead th' eq')).resolve_left off
  · rw [SchedState.modify_threadList_of_ne _ _ _ ne] at eq
    exact dead th eq

/-- A change that leaves the state alone. -/
theorem modify_same (same : ∀ th, (f th).state = th.state) : Retires exempt s (s.modify t f) :=
  modify fun th _ dead => .inr (by rw [same, dead])

/-- A change to a thread that is not over. -/
theorem modify_live {th : Thread} (eq : s.threadList t = some th) (live : th.state ≠ .terminated) :
    Retires exempt s (s.modify t f) := by
  refine modify fun th' eq' dead => absurd dead ?_
  obtain rfl := Option.some.inj (eq.symm.trans eq')
  exact live

end Retires

/-! ## The sections -/

section Sections

variable {exempt : Nat → Prop} {s : SchedState}

theorem threadCreate_retires (new : exempt s.nextThreadId) (gotThread gotStack : Bool) :
    Retires exempt s (threadCreate s gotThread gotStack).2 := by
  unfold threadCreate
  split
  · exact .refl s
  split
  · exact .refl s
  dsimp only
  split
  · exact ⟨Nat.le_succ _, fun _ _ ended => ended⟩
  · refine ⟨?_, fun t off dead th eq => dead th ?_⟩
    · rw [rqEnqueue_nextThreadId]
      exact Nat.le_succ _
    · have ne : t ≠ s.nextThreadId := by
        rintro rfl
        exact off new
      rw [rqEnqueue_threadList] at eq
      dsimp only at eq
      rwa [Function.update_of_ne ne] at eq

theorem threadKill_retires (tid : Nat) : Retires exempt s (threadKill s tid).2 := by
  unfold threadKill
  split
  · exact .refl s
  split
  · exact .refl s
  have killed : ∀ s' : SchedState, s'.nextThreadId = s.nextThreadId →
      s'.threadList = s.threadList →
      Retires exempt s ((rqRemove (wakeListRemove s' tid) tid).setState tid .terminated) := by
    intro s' next list
    have removed : Retires exempt s (rqRemove (wakeListRemove s' tid) tid) :=
      .of_same ((rqRemove_nextThreadId _ _).trans next) ((rqRemove_threadList _ _).trans list)
    exact removed.trans (.modify fun _ _ _ => .inr rfl)
  dsimp only
  split
  · exact killed _ rfl rfl
  · exact killed _ rfl rfl

theorem threadExitSection_retires : Retires exempt s (threadExitSection s) := by
  unfold threadExitSection
  split
  · exact .refl s
  next tid _ =>
    split
    · exact .refl s
    · have removed : Retires exempt s (rqRemove s tid) :=
        .of_same (rqRemove_nextThreadId _ _) (rqRemove_threadList _ _)
      exact removed.trans (.modify fun _ _ _ => .inr rfl)

theorem reapOne_nextThreadId (i : Nat) : (reapOne s i).nextThreadId = s.nextThreadId := by
  unfold reapOne
  split
  · rfl
  split
  · rfl
  split
  · rfl
  · exact rqRemove_nextThreadId _ _

theorem reapOne_retires (i : Nat) : Retires exempt s (reapOne s i) :=
  ⟨Nat.le_of_eq (reapOne_nextThreadId i).symm, fun _ _ dead th eq => dead th (reapOne_threadList eq)⟩

theorem threadReapTerminated_retires : Retires exempt s (threadReapTerminated s) :=
  threadReapTerminated_induction (P := Retires exempt s)
    (fun _ i retires => retires.trans (reapOne_retires i)) (.refl s)

theorem requeueOld_retires : Retires exempt s (requeueOld s) := by
  unfold requeueOld
  split
  · exact .refl s
  next tid _ =>
    split
    next t eq =>
      split
      next running =>
        have ready : Retires exempt s (s.setState tid .ready) :=
          .modify_live eq (by simp [running])
        exact ready.trans (.of_same (rqEnqueue_nextThreadId _ _) (rqEnqueue_threadList _ _))
      · exact .refl s
    · exact .refl s

/-- The thread that `schedule_core` picks was ready. -/
theorem scheduleCore_retires {free : Prop} (ok : QueueOk s free) :
    Retires exempt s (scheduleCore s).sched := by
  obtain ⟨l₀, w, inv₀, -⟩ := ok
  obtain ⟨l, -, inv⟩ := requeueOld_queueInv (threadReapTerminated_queueInv inv₀)
  have before : Retires exempt s (requeueOld (threadReapTerminated s)) :=
    threadReapTerminated_retires.trans requeueOld_retires
  unfold scheduleCore
  dsimp only
  generalize requeueOld (threadReapTerminated s) = s' at inv before ⊢
  cases l with
  | nil =>
      rw [inv.rqDequeue_nil]
      exact before.trans (.of_same rfl rfl)
  | cons next l =>
      obtain ⟨rq, eq, -⟩ := inv.rqDequeue
      obtain ⟨th, eqN, ready⟩ := inv.readyState next List.mem_cons_self
      have popped : Retires exempt s { s' with rq := rq, rqCount := s'.rqCount - 1 } :=
        before.trans (.of_same rfl rfl)
      have live : th.state ≠ .terminated := by simp [ready]
      rw [eq]
      dsimp only
      split
      · exact popped.trans (.modify_live eqN live)
      · exact (popped.trans (.modify_live eqN live)).trans (.of_same rfl rfl)

theorem timerWakeOne_retires (now t : Nat) : Retires exempt s (timerWakeOne s now t) := by
  unfold timerWakeOne
  split
  · exact .refl s
  next th eq =>
    split
    next due =>
      have woken : Retires exempt s (wakeListRemove (rqEnqueue (s.modify t
          fun th => { th with state := .ready, wakeTick := 0 }) t) t) :=
        Retires.trans (.modify_live eq (by simp [due.1]))
          (.of_same (rqEnqueue_nextThreadId _ t) (rqEnqueue_threadList _ t))
      dsimp only
      split
      · exact woken.trans (.of_same rfl rfl)
      · exact woken
    · exact .refl s

theorem timerWake_retires (now : Nat) : Retires exempt s (timerWake s now) :=
  timerWake_induction (P := Retires exempt s)
    (fun _ t retires => retires.trans (timerWakeOne_retires now t)) (.refl s)

/-- Blocking a thread that is over brings it back. -/
theorem markBlocked_retires {tid : Nat}
    (live : ∀ th, s.threadList tid = some th → th.state = .terminated → exempt tid) :
    Retires exempt s (markBlocked s tid) := by
  have blocked : Retires exempt s (s.setState tid .blocked) :=
    .modify fun th eq dead => .inl (live th eq dead)
  exact blocked.trans (.of_same (rqRemove_nextThreadId _ _) (rqRemove_threadList _ _))

/-- Changing a thread but for its state does not make it over. -/
theorem live_modify {tid : Nat} {f : Thread → Thread} (same : ∀ th, (f th).state = th.state)
    (live : ∀ th, s.threadList tid = some th → th.state = .terminated → exempt tid) :
    ∀ th, (s.modify tid f).threadList tid = some th → th.state = .terminated → exempt tid := by
  intro th eq dead
  rw [SchedState.modify_threadList_self] at eq
  obtain ⟨th', eq', rfl⟩ := Option.map_eq_some_iff.1 eq
  exact live th' eq' ((same th').symm.trans dead)

theorem waitTicksSection_retires {wake : Nat} (live : ∀ tid th, s.currentThreadId = some tid →
    s.threadList tid = some th → th.state = .terminated → exempt tid) :
    Retires exempt s (waitTicksSection s wake) := by
  unfold waitTicksSection
  split
  · exact .refl s
  next tid current =>
    split
    · exact .refl s
    · have timed : Retires exempt s (s.modify tid fun t => { t with wakeTick := wake }) :=
        .modify_same fun _ => rfl
      dsimp only
      split
      · exact timed.trans (markBlocked_retires (live_modify (fun _ => rfl)
          fun th => live tid th current))
      · exact timed

theorem networkBlockSection_retires {now : Nat} (live : ∀ tid th, s.currentThreadId = some tid →
    s.threadList tid = some th → th.state = .terminated → exempt tid) :
    Retires exempt s (networkBlockSection s now) := by
  unfold networkBlockSection
  split
  · exact .refl s
  next tid current =>
    split
    · exact .refl s
    · split
      · have timed : Retires exempt s
            (s.modify tid fun t => { t with wakeTick := tickAfter now 1 }) :=
          .modify_same fun _ => rfl
        exact timed.trans (markBlocked_retires (live_modify (fun _ => rfl)
          fun th => live tid th current))
      · exact .refl s

theorem waitTicksEnd_retires {tid : Nat}
    (live : ∀ th, s.threadList tid = some th → th.state = .terminated → exempt tid) :
    Retires exempt s (waitTicksEnd s tid) := by
  have removed : Retires exempt s (wakeListRemove s tid) := .of_same rfl rfl
  have running : Retires exempt s ((wakeListRemove s tid).modify tid
      fun t => { t with state := .running, wakeTick := 0 }) :=
    removed.trans (.modify fun th eq dead => .inl (live th eq dead))
  exact running.trans (.of_same (rqRemove_nextThreadId _ tid) (rqRemove_threadList _ tid))

end Sections

/-! ## The actions -/

section Actions

variable {exempt : Nat → Prop} {m : Machine}

theorem switchContext_retires (old : Option Nat) (next : Nat) (after : Phase) :
    Retires exempt m.sched (switchContext m old next after).sched := by
  have stored : Retires exempt m.sched (storeContext m old after) := by
    cases old with
    | none => exact .refl _
    | some o => exact .modify_same fun _ => rfl
  unfold switchContext
  dsimp only
  split <;> exact stored

theorem schedulerCall_retires (ok : MachineQueueOk m) (k : Resume) :
    Retires exempt m.sched (schedulerCall m k).sched := by
  have scheduled : Retires exempt m.sched (scheduleCore m.sched).sched := scheduleCore_retires ok
  unfold schedulerCall
  generalize scheduleCore m.sched = r at scheduled ⊢
  dsimp only
  split <;> exact scheduled

theorem schedulerFromIrq_retires {free : Prop} (ok : QueueOk m.sched free) :
    Retires exempt m.sched (schedulerFromIrq m).sched := by
  have scheduled : Retires exempt m.sched (scheduleCore m.sched).sched := scheduleCore_retires ok
  unfold schedulerFromIrq
  generalize scheduleCore m.sched = r at scheduled ⊢
  dsimp only
  split
  · exact scheduled.trans (switchContext_retires (m := ⟨_, m.cpu⟩) _ _ _)
  · exact scheduled

theorem timerHandler_retires (ok : MachineQueueOk m) (now : Nat) :
    Retires exempt m.sched (timerHandler m now).sched := by
  have woken : Retires exempt m.sched (timerWake m.sched now) := timerWake_retires now
  have queues := timerWake_queueOk ok now
  unfold timerHandler
  dsimp only
  split
  · exact woken
  next tid _ =>
    have counted : Retires exempt m.sched (countTick (timerWake m.sched now) tid) :=
      woken.trans (.modify_same fun _ => rfl)
    split
    · exact counted.trans (schedulerFromIrq_retires (m := ⟨_, m.cpu⟩)
        (queues.modify_same tid fun _ => rfl))
    · exact counted

theorem timerHandlerLocked_retires : Retires exempt m.sched (timerHandlerLocked m).sched := by
  unfold timerHandlerLocked
  split
  · exact .refl _
  · exact .modify_same fun _ => rfl

theorem afterScheduler_retires {k : Resume} {now : Nat}
    (live : ∀ tid wake th, k = .wait (some tid) wake → m.sched.threadList tid = some th →
      th.state = .terminated → exempt tid) :
    Retires exempt m.sched (afterScheduler m k now).sched := by
  cases k with
  | network => exact .refl _
  | yieldLoop => exact .refl _
  | exitLoop => exact .refl _
  | wait tid wake =>
      unfold afterScheduler
      cases tid with
      | none => exact .refl _
      | some tid =>
          cases eq : m.sched.threadList tid with
          | none => simpa only [eq] using .refl _
          | some t =>
              simp only [eq]
              split
              · exact .refl _
              · exact waitTicksEnd_retires fun th => live tid wake th rfl

/-- The actions that block the current thread. -/
def Action.blocks : Action → Bool
  | .waitTicks _ ticks => ticks ≠ 0
  | .networkBlock _ => true
  | _ => false

theorem runningStep_retires {a : Action}
    (created : ∀ gotThread gotStack, a = .create gotThread gotStack →
      exempt m.sched.nextThreadId)
    (live : ∀ tid th, a.blocks = true → m.sched.currentThreadId = some tid →
      m.sched.threadList tid = some th → th.state = .terminated → exempt tid) :
    Retires exempt m.sched (runningStep m a).sched := by
  cases a with
  | create gotThread gotStack =>
      exact threadCreate_retires (created gotThread gotStack rfl) gotThread gotStack
  | kill tid => exact threadKill_retires tid
  | waitTicks now ticks =>
      unfold runningStep
      dsimp only
      split
      · exact .refl _
      next some =>
        exact waitTicksSection_retires fun tid th => live tid th (decide_eq_true some)
  | networkBlock now => exact networkBlockSection_retires fun tid th => live tid th rfl
  | exit => exact threadExitSection_retires
  | fault =>
      unfold runningStep
      dsimp only
      split
      · exact threadExitSection_retires
      · exact .refl _
  | _ => exact .refl _

/-- An action brings no thread back, unless it blocks one that is over or ends the wait
of one. -/
theorem machineStep_retires {a : Action} (ok : MachineQueueOk m)
    (created : ∀ gotThread gotStack, m.cpu.phase = .running → a = .create gotThread gotStack →
      exempt m.sched.nextThreadId)
    (blocked : ∀ tid th, m.cpu.phase = .running → a.blocks = true →
      m.sched.currentThreadId = some tid → m.sched.threadList tid = some th →
      th.state = .terminated → exempt tid)
    (waited : ∀ tid wake now th, m.cpu.phase = .returned (.wait (some tid) wake) →
      a = .proceed now → m.sched.threadList tid = some th → th.state = .terminated →
      exempt tid) :
    Retires exempt m.sched (machineStep m a).sched := by
  unfold machineStep
  split
  next now => exact timerHandler_retires ok now
  next => exact timerHandlerLocked_retires
  next =>
    split
    next phase _ _ => exact runningStep_retires (created · · phase) fun tid th => blocked tid th phase
    next k _ _ _ => exact schedulerCall_retires ok k
    next old next k _ _ _ => exact switchContext_retires old next (.returned k)
    next k now phase _ _ =>
      refine afterScheduler_retires fun tid wake th eq => ?_
      subst eq
      exact waited tid wake now th phase rfl
    next => exact .refl _

end Actions

end NTux.Sched
