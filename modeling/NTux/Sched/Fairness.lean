import NTux.Sched.SavedContext
import NTux.Lib.Countdown

/-!
# Every ready thread gets its turn

The ready queue is served in order: threads enter it at the end only, and each
`schedule_core` takes the thread at its head.  So a thread with `k` others before it is
the current one after at most `k + 1` calls of `schedule_core`, whatever the other
threads and the timer do in between, unless it is killed (`ready_thread_runs`).
-/

namespace NTux.Sched

open NTux.Lib

/-- The thread is on the ready queue, behind at most `k` others. -/
def QueuedAt (s : SchedState) (t k : Nat) : Prop := ∃ l, s.rq.Holds l ∧ Within l t k

/-- The thread is the current one and its state is running. -/
def Dispatched (s : SchedState) (t : Nat) : Prop :=
  s.currentThreadId = some t ∧ isRunning s t = true

/-- Whether an action calls `schedule_core`: `scheduler()` itself, or the tick that uses
up the quantum of the running thread. -/
def reschedules (m : Machine) : Action → Bool
  | .schedule => match m.cpu.phase with
      | .calling _ => true
      | _ => false
  | .timer now =>
      let s := timerWake m.sched now
      (timedThread s).any fun tid => quantumUsed (countTick s tid) tid
  | _ => false

section Sections

variable {s : SchedState} {t k : Nat}

theorem QueuedAt.queued (at' : QueuedAt s t k) : s.rq.queued t = true := by
  obtain ⟨l, holds, within⟩ := at'
  exact (holds.flags t).2 within.mem

theorem QueuedAt.ready {l w : List Nat} (at' : QueuedAt s t k) (inv : QueueInv s l w) :
    ∃ th, s.threadList t = some th ∧ th.state = .ready :=
  inv.readyState t ((inv.ready.flags t).1 at'.queued)

/-- A queued thread is not the current one, where that is free of the queues. -/
theorem QueuedAt.current_ne {u : Nat} (at' : QueuedAt s t k) (ok : QueueOk s True)
    (current : s.currentThreadId = some u) : u ≠ t := by
  rintro rfl
  obtain ⟨l, w, inv, free⟩ := ok
  exact (free trivial u current).1 ((inv.ready.flags u).1 at'.queued)

theorem QueuedAt.rqEnqueue (at' : QueuedAt s t k) (u : Nat) : QueuedAt (rqEnqueue s u) t k := by
  obtain ⟨l, holds, within⟩ := at'
  unfold Sched.rqEnqueue
  split
  · exact ⟨l, holds, within⟩
  next unqueued =>
    have new : u ∉ l := fun mem => unqueued ((holds.flags u).2 mem)
    exact ⟨l ++ [u], holds.add new, within.append [u]⟩

theorem QueuedAt.rqRemove {u : Nat} (at' : QueuedAt s t k) (other : u ≠ t) :
    QueuedAt (rqRemove s u) t k := by
  obtain ⟨l, holds, within⟩ := at'
  unfold Sched.rqRemove
  split
  · exact ⟨l.erase u, holds.remove, within.erase other⟩
  · exact ⟨l, holds, within⟩

/-- The head of the queue is the thread, or one of those before it. -/
theorem QueuedAt.rqDequeue (at' : QueuedAt s t k) :
    ∃ u rq, rqDequeue s = some (u, { s with rq := rq, rqCount := s.rqCount - 1 }) ∧
      (u ≠ t → ∃ j, 1 + j ≤ k ∧ ∃ l, rq.Holds l ∧ Within l t j) := by
  obtain ⟨l, holds, within⟩ := at'
  cases l with
  | nil => exact absurd within.mem List.not_mem_nil
  | cons u l =>
      obtain ⟨rq, eq, rest⟩ := holds.pop
      refine ⟨u, rq, by rw [Sched.rqDequeue, eq, Option.map_some], fun other => ?_⟩
      obtain ⟨j, fewer, within⟩ := within.tail other
      exact ⟨j, fewer, l, rest, within⟩

theorem threadCreate_queuedAt {free : Prop} (at' : QueuedAt s t k) (ok : QueueOk s free)
    (gotThread gotStack : Bool) : QueuedAt (threadCreate s gotThread gotStack).2 t k := by
  obtain ⟨l, holds, within⟩ := at'
  obtain ⟨l', w, inv, -⟩ := ok
  unfold threadCreate
  split
  · exact ⟨l, holds, within⟩
  split
  · exact ⟨l, holds, within⟩
  dsimp only
  split
  · exact ⟨l, holds, within⟩
  · -- the new id is on no queue
    have off : s.nextThreadId ∉ l := fun mem => by
      have queued := (inv.ready.flags _).1 ((holds.flags _).2 mem)
      obtain ⟨th, eq, -⟩ := inv.readyState _ queued
      exact absurd (inv.lt_next eq) (Nat.lt_irrefl _)
    refine QueuedAt.rqEnqueue ?_ _
    exact ⟨l, holds.reset off, within⟩

theorem threadKill_queuedAt {tid : Nat} (at' : QueuedAt s t k) (other : tid ≠ t) :
    QueuedAt (threadKill s tid).2 t k := by
  unfold threadKill
  split
  · exact at'
  split
  · exact at'
  · dsimp only
    split <;> exact QueuedAt.rqRemove (s := wakeListRemove _ tid) at' other

theorem threadExitSection_queuedAt (at' : QueuedAt s t k) (ok : QueueOk s True) :
    QueuedAt (threadExitSection s) t k := by
  unfold threadExitSection
  split
  · exact at'
  next tid current =>
    split
    · exact at'
    · exact QueuedAt.rqRemove at' (at'.current_ne ok current)

theorem markBlocked_queuedAt {tid : Nat} (at' : QueuedAt s t k) (other : tid ≠ t) :
    QueuedAt (markBlocked s tid) t k :=
  QueuedAt.rqRemove (s := s.setState tid .blocked) at' other

theorem waitTicksSection_queuedAt (at' : QueuedAt s t k) (ok : QueueOk s True) (wake : Nat) :
    QueuedAt (waitTicksSection s wake) t k := by
  unfold waitTicksSection
  split
  · exact at'
  next tid current =>
    have other := at'.current_ne ok current
    split
    · exact at'
    · dsimp only
      split
      · exact markBlocked_queuedAt (s := s.modify tid _) at' other
      · exact at'

theorem networkBlockSection_queuedAt (at' : QueuedAt s t k) (ok : QueueOk s True) (now : Nat) :
    QueuedAt (networkBlockSection s now) t k := by
  unfold networkBlockSection
  split
  · exact at'
  next tid current =>
    have other := at'.current_ne ok current
    split
    · exact at'
    · split
      · exact markBlocked_queuedAt (s := s.modify tid _) at' other
      · exact at'

/-- The thread whose wait is over is made the current one, wherever it is. -/
theorem waitTicksEnd_queuedAt {tid : Nat} {th : Thread} (at' : QueuedAt s t k)
    (eq : s.threadList tid = some th) :
    Dispatched (waitTicksEnd s tid) t ∨ QueuedAt (waitTicksEnd s tid) t k := by
  rcases eq_or_ne tid t with rfl | other
  · left
    refine ⟨rfl, ?_⟩
    simp [isRunning, waitTicksEnd, SchedState.modify_threadList_self, wakeListRemove, eq]
  · right
    exact QueuedAt.rqRemove (s := (wakeListRemove s tid).modify tid _) at' other

theorem timerWake_queuedAt (at' : QueuedAt s t k) (now : Nat) :
    QueuedAt (timerWake s now) t k := by
  refine timerWake_induction (P := fun s => QueuedAt s t k) (fun s u at' => ?_) at'
  unfold timerWakeOne
  split
  · exact at'
  split
  · have woken : QueuedAt (rqEnqueue (s.modify u fun th =>
        { th with state := .ready, wakeTick := 0 }) u) t k :=
      QueuedAt.rqEnqueue (s := s.modify u _) at' u
    dsimp only
    split <;> exact woken
  · exact at'

/-- A call of `schedule_core` makes the thread the current one, or takes one of those
before it. -/
theorem scheduleCore_queuedAt {free : Prop} (at' : QueuedAt s t k) (ok : QueueOk s free) :
    Dispatched (scheduleCore s).sched t ∨
      ∃ j, 1 + j ≤ k ∧ QueuedAt (scheduleCore s).sched t j := by
  obtain ⟨l, holds, within⟩ := at'
  obtain ⟨l₀, w, inv₀, -⟩ := ok
  obtain rfl : l₀ = l := inv₀.ready.links.forward.unique holds.links.forward
  -- reaping leaves the queue alone, and the old thread goes to its end
  obtain ⟨_, ⟨new, rfl⟩, inv⟩ := requeueOld_queueInv (threadReapTerminated_queueInv inv₀)
  have waits : QueuedAt (requeueOld (threadReapTerminated s)) t k :=
    ⟨l₀ ++ new, inv.ready, within.append new⟩
  have current := requeueOld_currentThreadId (s := threadReapTerminated s)
  unfold scheduleCore
  dsimp only
  generalize requeueOld (threadReapTerminated s) = s' at waits inv current ⊢
  obtain ⟨th, eqT, -⟩ := waits.ready inv
  obtain ⟨u, rq, eq, rest⟩ := waits.rqDequeue
  rw [eq]
  dsimp only
  rcases eq_or_ne u t with rfl | other
  · left
    split
    next same =>
      refine ⟨current.trans same, ?_⟩
      simp [isRunning, SchedState.modify_threadList_self, eqT]
    next =>
      refine ⟨rfl, ?_⟩
      simp [isRunning, SchedState.modify_threadList_self, eqT]
  · right
    obtain ⟨j, fewer, l, holds, within⟩ := rest other
    refine ⟨j, fewer, ?_⟩
    split <;> exact ⟨l, holds, within⟩

end Sections

section Actions

variable {m : Machine} {t k : Nat}

theorem switchContext_queuedAt (at' : QueuedAt m.sched t k) (old : Option Nat) (next : Nat)
    (after : Phase) : QueuedAt (switchContext m old next after).sched t k := by
  unfold switchContext
  dsimp only
  cases old <;> split <;> exact at'

/-- A switch does not change which thread is current, or the state of any. -/
theorem switchContext_dispatched {old : Option Nat} {next : Nat} {after : Phase}
    (dispatched : Dispatched m.sched t) :
    Dispatched (switchContext m old next after).sched t := by
  have stored : Dispatched (storeContext m old after) t := by
    cases old with
    | none => exact dispatched
    | some o =>
        refine ⟨dispatched.1, ?_⟩
        have running := dispatched.2
        unfold isRunning at running ⊢
        rcases eq_or_ne t o with rfl | ne
        · rw [storeContext, SchedState.modify_threadList_self, Option.any_map]
          exact running
        · rw [storeContext, SchedState.modify_threadList_of_ne _ _ _ ne]
          exact running
  unfold switchContext
  dsimp only
  split <;> exact stored

theorem schedulerCall_queuedAt (ok : MachineQueueOk m) (at' : QueuedAt m.sched t k)
    (r : Resume) :
    Dispatched (schedulerCall m r).sched t ∨
      ∃ j, 1 + j ≤ k ∧ QueuedAt (schedulerCall m r).sched t j := by
  have scheduled := scheduleCore_queuedAt at' ok
  unfold schedulerCall
  generalize scheduleCore m.sched = outcome at scheduled ⊢
  dsimp only
  split <;> exact scheduled

theorem schedulerFromIrq_queuedAt (ok : MachineQueueOk m) (at' : QueuedAt m.sched t k) :
    Dispatched (schedulerFromIrq m).sched t ∨
      ∃ j, 1 + j ≤ k ∧ QueuedAt (schedulerFromIrq m).sched t j := by
  have scheduled := scheduleCore_queuedAt at' ok
  unfold schedulerFromIrq
  generalize scheduleCore m.sched = outcome at scheduled ⊢
  dsimp only
  split
  · refine scheduled.imp (switchContext_dispatched (m := ⟨outcome.sched, m.cpu⟩)) ?_
    rintro ⟨j, fewer, waits⟩
    exact ⟨j, fewer, switchContext_queuedAt (m := ⟨outcome.sched, m.cpu⟩) waits _ _ _⟩
  · exact scheduled

theorem timerHandler_queuedAt (ok : MachineQueueOk m) (at' : QueuedAt m.sched t k) (now : Nat) :
    Dispatched (timerHandler m now).sched t ∨
      ∃ j, (reschedules m (.timer now)).toNat + j ≤ k ∧
        QueuedAt (timerHandler m now).sched t j := by
  have woken := timerWake_queuedAt at' now
  have okWoken := timerWake_queueOk ok now
  unfold timerHandler reschedules
  dsimp only
  generalize timerWake m.sched now = s at woken okWoken ⊢
  cases timedThread s with
  | none =>
      rw [Option.any_none]
      exact .inr ⟨k, by simp, woken⟩
  | some tid =>
      dsimp only
      have counted : QueuedAt (countTick s tid) t k := woken
      have okCounted : QueueOk (countTick s tid) (m.cpu.phase.blocking = false) :=
        okWoken.modify_same tid fun _ => rfl
      rw [Option.any_some]
      cases used : quantumUsed (countTick s tid) tid with
      | true =>
          rw [if_pos rfl]
          exact schedulerFromIrq_queuedAt (m := ⟨countTick s tid, m.cpu⟩) okCounted counted
      | false =>
          rw [if_neg Bool.false_ne_true]
          exact .inr ⟨k, by simp, counted⟩

theorem afterScheduler_queuedAt (at' : QueuedAt m.sched t k) (r : Resume) (now : Nat) :
    Dispatched (afterScheduler m r now).sched t ∨ QueuedAt (afterScheduler m r now).sched t k := by
  cases r with
  | network => exact .inr at'
  | yieldLoop => exact .inr at'
  | exitLoop => exact .inr at'
  | wait tid wake =>
      unfold afterScheduler
      cases tid with
      | none => exact .inr at'
      | some tid =>
          cases eq : m.sched.threadList tid with
          | none =>
              simp only [eq]
              exact .inr at'
          | some th =>
              simp only [eq]
              split
              · exact .inr at'
              · exact waitTicksEnd_queuedAt at' eq

/-- Code in a context of its own calls no `schedule_core`, and takes only the current
thread, or the one it kills, off the queue. -/
theorem runningStep_queuedAt (ok : QueueOk m.sched True) (at' : QueuedAt m.sched t k)
    {a : Action} (alive : a ≠ .kill t) : QueuedAt (runningStep m a).sched t k := by
  cases a with
  | create gotThread gotStack => exact threadCreate_queuedAt at' ok gotThread gotStack
  | kill tid =>
      refine threadKill_queuedAt at' ?_
      rintro rfl
      exact alive rfl
  | waitTicks now ticks =>
      unfold runningStep
      dsimp only
      split
      · exact at'
      · exact waitTicksSection_queuedAt at' ok _
  | networkBlock now => exact networkBlockSection_queuedAt at' ok now
  | exit => exact threadExitSection_queuedAt at' ok
  | fault =>
      unfold runningStep
      dsimp only
      split
      · exact threadExitSection_queuedAt at' ok
      · exact at'
  | _ => exact at'

theorem reschedules_false {a : Action} (noTimer : ∀ now, a = .timer now → False)
    (noCall : a = .schedule → ∀ r, m.cpu.phase ≠ .calling r) : reschedules m a = false := by
  unfold reschedules
  split
  · split
    next r phase => exact absurd phase (noCall rfl r)
    next => rfl
  next now => exact (noTimer now rfl).elim
  next => rfl

/-- One action: the thread becomes the current one, or keeps its place, and moves up if
the action calls `schedule_core`. -/
theorem machineStep_queuedAt (ok : MachineQueueOk m) {a : Action} (alive : a ≠ .kill t)
    (at' : QueuedAt m.sched t k) :
    Dispatched (machineStep m a).sched t ∨
      ∃ j, (reschedules m a).toNat + j ≤ k ∧ QueuedAt (machineStep m a).sched t j := by
  -- in any phase but the blocking ones the current thread is free of the queues
  have free : m.cpu.phase.blocking = false → QueueOk m.sched True := fun phase =>
    ok.imp fun _ => phase
  have stays : ∀ m' : Machine, reschedules m a = false → QueuedAt m'.sched t k →
      ∃ j, (reschedules m a).toNat + j ≤ k ∧ QueuedAt m'.sched t j := fun _ calm waits =>
    ⟨k, by simp [calm], waits⟩
  unfold machineStep
  split
  next now => exact timerHandler_queuedAt ok at' now
  next =>
    refine .inr (stays _ rfl ?_)
    unfold timerHandlerLocked
    split <;> exact at'
  next =>
    split
    next phase noTimer _ =>
      have calm : reschedules m _ = false := reschedules_false noTimer fun _ r => by simp [phase]
      exact .inr (stays _ calm (runningStep_queuedAt (free (by rw [phase]; rfl)) at' alive))
    next r phase _ _ =>
      have calls : (reschedules m .schedule).toNat = 1 := by
        unfold reschedules
        rw [phase]
        rfl
      rw [calls]
      exact schedulerCall_queuedAt ok at' r
    next old next r phase _ _ =>
      exact .inr (stays _ rfl (switchContext_queuedAt at' old next (.returned r)))
    next r now phase _ _ => exact (afterScheduler_queuedAt at' r now).imp id (stays _ rfl)
    next _ noSchedule _ _ noTimer _ =>
      have calm : reschedules m _ = false := reschedules_false noTimer fun isSchedule r phase =>
        noSchedule r phase isSchedule
      exact .inr (stays m calm at')

end Actions

/-- From every reachable state, a thread of the ready queue with `before` ahead of it is
the current one, and runs, by the time `schedule_core` has been called once more than
that, whatever happens meanwhile, unless the thread is killed. -/
theorem ready_thread_runs (as bs : List Action) {before after : List Nat} {t : Nat}
    (ready : ReadyQueueOk (run machineStep bootMachine as) (before ++ t :: after))
    (alive : .kill t ∉ bs)
    (calls : before.length <
      countSteps machineStep reschedules (run machineStep bootMachine as) bs) :
    ∃ cs ds, bs = cs ++ ds ∧ cs ≠ [] ∧
      countSteps machineStep reschedules (run machineStep bootMachine as) cs ≤
        before.length + 1 ∧
      Dispatched (run machineStep bootMachine (as ++ cs)).sched t := by
  have start : QueuedAt (run machineStep bootMachine as).sched t before.length := by
    refine ⟨before ++ t :: after, ⟨ready.linked, ready.flagged⟩, ?_⟩
    exact ⟨before, after, rfl, Nat.le_refl _⟩
  have lives : AllSteps machineStep (fun _ a => a ≠ .kill t)
      (run machineStep bootMachine as) bs :=
    AllSteps.of_mem (C := fun (_ : Machine) a => a ≠ Action.kill t) fun _ a mem same => alive (same ▸ mem)
  have keep : ∀ m a, MachineQueueOk m → MachineQueueOk (machineStep m a) := fun _ a ok =>
    machineStep_queueOk ok a
  obtain ⟨cs, ds, split, some', few, goal⟩ :=
    run_countdown (G := fun m => Dispatched m.sched t)
      (D := fun m k => QueuedAt m.sched t k) keep
      (fun _ _ _ ok alive waits => machineStep_queuedAt ok alive waits)
      (machineQueueOk_along_run as) start lives calls
  exact ⟨cs, ds, split, some', few, by rwa [run_append]⟩

/-- Two threads, the second one waits for the first one to yield. -/
theorem ready_thread_runs_second :
    ∃ cs ds, [.schedule, .switch, .yield, .schedule] = cs ++ ds ∧ cs ≠ [] ∧
      countSteps machineStep reschedules
        (run machineStep bootMachine [.create true true, .create true true, .yield]) cs ≤ 1 + 1 ∧
      Dispatched (run machineStep bootMachine
        ([.create true true, .create true true, .yield] ++ cs)).sched 1 := by
  have holds : (run machineStep bootMachine
      [.create true true, .create true true, .yield]).sched.rq.Holds [0, 1] := by
    have first := (IntrusiveQueue.Holds.empty.reset (t := 0) (by simp)).add (t := 0) (by simp)
    have second := (first.reset (t := 1) (by simp)).add (t := 1) (by simp)
    exact second
  obtain ⟨l, queues⟩ := (machineQueueOk_along_run
    [.create true true, .create true true, .yield]).readyQueue
  obtain rfl : l = [0] ++ 1 :: [] := queues.linked.forward.unique holds.links.forward
  exact ready_thread_runs [.create true true, .create true true, .yield]
    [.schedule, .switch, .yield, .schedule] queues (by simp) (by decide +kernel)

end NTux.Sched
