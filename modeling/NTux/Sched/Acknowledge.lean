import NTux.Sched.SavedContext

/-!
# Acknowledging timer interrupts

`irq_handler_c` sends the end of interrupt after the handler, but `timer_handler` may
switch to another thread before it returns.  What is resumed then decides: a thread that
was itself suspended inside the handler goes on to send it, a new thread and one that
yielded do not.

The first switch of a run out of a timer interrupt finds no thread that was suspended
inside the handler, so the interrupts of a run are acknowledged just when none of them
takes the CPU from the code it interrupts (`acknowledged_iff`).
-/

namespace NTux.Sched

open NTux.Lib

/-- A timer interrupt. -/
def Action.isTimer : Action → Bool
  | .timer _ => true
  | .timerLocked => true
  | _ => false

/-- The machine with its interrupt controller. -/
structure IrqMachine where
  machine : Machine
  /-- The timer interrupt is in service. -/
  inService : Bool
  /-- The stored context of a thread is inside `irq_handler_c`, with the end of interrupt to
  be sent. -/
  inHandler : Nat → Bool

/-- The stored contexts after a switch that suspends `old`, inside the handler or not. -/
def storeFrame (inHandler : Nat → Bool) (old : Option Nat) (inside : Bool) : Nat → Bool :=
  match old with
  | some o => Function.update inHandler o inside
  | none => inHandler

/-- The stored contexts after an action that does not switch: a new thread starts at its
entry. -/
def createFrame (x : IrqMachine) (a : Action) : Nat → Bool :=
  match createdBy x.machine a with
  | some t => Function.update x.inHandler t false
  | none => x.inHandler

/-- One action.  The controller delivers no timer interrupt while one is in service. -/
def irqStep (x : IrqMachine) (a : Action) : IrqMachine :=
  if a.isTimer && x.inService then x
  else
    let machine := machineStep x.machine a
    match switchOf x.machine a with
    | some (old, next) =>
        -- the context that is resumed sends the end of interrupt where it is in the handler
        let inHandler := storeFrame x.inHandler old a.isTimer
        ⟨machine, (a.isTimer || x.inService) && !inHandler next, inHandler⟩
    | none => ⟨machine, !a.isTimer && x.inService, createFrame x a⟩

/-- The machine before its first action. -/
def irqBoot : IrqMachine := ⟨bootMachine, false, fun _ => false⟩

/-- The code outside the handler that runs after an action finds no timer interrupt in
service. -/
def Acknowledges (x : IrqMachine) (a : Action) : Prop := (irqStep x a).inService = false

/-- A timer interrupt takes the CPU from the code it interrupts: the quantum of the running
thread is used up while another one is ready. -/
def preempts (m : Machine) : Action → Bool
  | .timer now => timerReschedules m.sched now && (timerWake m.sched now).rq.head.isSome
  | _ => false

/-! ## Which interrupts switch -/

/-- With the current thread running, `schedule_core` switches just when the queue is not
empty, and then to another thread. -/
theorem chosenSwitch_running {s : SchedState} {tid : Nat} {free : Prop} (queues : QueueOk s free)
    (timed : timedThread s = some tid) :
    ((chosenSwitch s).isSome = s.rq.head.isSome) ∧
      ∀ old next, chosenSwitch s = some (old, next) → old ≠ some next := by
  obtain ⟨current, runs⟩ := Option.filter_eq_some_iff.1 timed
  obtain ⟨l, w, inv₀, -⟩ := queues
  have inv := threadReapTerminated_queueInv inv₀
  obtain ⟨th, eq, running⟩ := Option.any_eq_true _ _ |>.1 (threadReapTerminated_running runs)
  have current' := threadReapTerminated_currentThreadId.trans current
  have requeued := requeueOld_running inv current' eq (of_decide_eq_true running)
  have off : tid ∉ l := inv.not_ready eq (by simp [of_decide_eq_true running])
  rw [inv₀.ready.links.forward.head_eq]
  have named : ∀ t, oldThread (threadReapTerminated s) = some t → some tid = some t :=
    fun t eq => current'.symm.trans (oldThread_eq eq)
  unfold chosenSwitch scheduleCore
  dsimp only
  generalize oldThread (threadReapTerminated s) = o at named ⊢
  rw [current']
  cases l with
  | nil =>
      obtain ⟨rq, dequeued, -⟩ := requeued.rqDequeue
      rw [dequeued]
      dsimp only
      rw [if_pos rfl]
      exact ⟨rfl, fun old next eq => absurd eq (by simp)⟩
  | cons next l =>
      obtain ⟨rq, dequeued, -⟩ := requeued.rqDequeue
      have other : ¬ some tid = some next := fun same =>
        off (Option.some.inj same ▸ List.mem_cons_self ..)
      rw [dequeued]
      dsimp only
      rw [if_neg other]
      refine ⟨rfl, fun old next' eq' => ?_⟩
      rw [Option.map_some, Option.some.injEq, Prod.mk.injEq] at eq'
      obtain ⟨rfl, rfl⟩ := eq'
      exact fun same => other (named _ same)

/-- The switches of timer interrupts. -/
theorem switchOf_timer {m : Machine} (ok : MachineQueueOk m) (now : Nat) :
    (switchOf m (.timer now)).isSome = preempts m (.timer now) ∧
      ∀ old next, switchOf m (.timer now) = some (old, next) → old ≠ some next := by
  have queues := timerWake_queueOk ok now
  simp only [switchOf, preempts, timerReschedules]
  generalize timerWake m.sched now = s at queues ⊢
  cases timed : timedThread s with
  | none => exact ⟨rfl, fun old next eq => absurd eq (by simp)⟩
  | some tid =>
      rw [Option.bind_some, Option.any_some]
      cases used : quantumUsed (countTick s tid) tid with
      | false => exact ⟨rfl, fun old next eq => absurd eq (by simp)⟩
      | true =>
          have counted : QueueOk (countTick s tid) _ := queues.modify_same tid fun _ => rfl
          exact chosenSwitch_running counted (timedThread_countTick timed)

/-! ## Runs -/

/-- Nothing is in service, and no thread was suspended inside the handler. -/
structure IrqIdle (x : IrqMachine) : Prop where
  queues : MachineQueueOk x.machine
  acknowledged : x.inService = false
  outside : ∀ t, x.inHandler t = false

/-- A context stored outside the handler changes nothing then. -/
theorem update_outside {f : Nat → Bool} (outside : ∀ t, f t = false) (o t : Nat) :
    Function.update f o false t = false := by
  rw [Function.update_apply]
  split
  · rfl
  · exact outside t

theorem createFrame_outside {x : IrqMachine} (outside : ∀ t, x.inHandler t = false) (a : Action)
    (t : Nat) : createFrame x a t = false := by
  unfold createFrame
  cases createdBy x.machine a with
  | some u => exact update_outside outside u t
  | none => exact outside t

/-- From then on, an interrupt is acknowledged just when it does not switch. -/
theorem irqStep_idle {x : IrqMachine} (idle : IrqIdle x) (a : Action) :
    (Acknowledges x a ↔ preempts x.machine a = false) ∧
      (preempts x.machine a = false → IrqIdle (irqStep x a)) := by
  have queues := machineStep_queueOk idle.queues a
  have free : (a.isTimer && x.inService) = false := by rw [idle.acknowledged, Bool.and_false]
  unfold Acknowledges irqStep
  rw [if_neg (by rw [free]; decide)]
  dsimp only
  cases timer : a.isTimer with
  | false =>
      have calm : preempts x.machine a = false := by
        cases a with
        | timer now => cases timer
        | _ => rfl
      rw [calm]
      cases switch : switchOf x.machine a with
      | none =>
          have served : (!false && x.inService) = false := by rw [idle.acknowledged]; rfl
          exact ⟨iff_of_true served rfl,
            fun _ => ⟨queues, served, createFrame_outside idle.outside a⟩⟩
      | some pair =>
          obtain ⟨old, next⟩ := pair
          have served : ((false || x.inService) && !storeFrame x.inHandler old false next) =
              false := by rw [idle.acknowledged]; rfl
          refine ⟨iff_of_true served rfl, fun _ => ⟨queues, served, fun t => ?_⟩⟩
          cases old with
          | none => exact idle.outside t
          | some o => exact update_outside idle.outside o t
  | true =>
      have quiet : switchOf x.machine a = none → IrqIdle ⟨machineStep x.machine a, false,
          createFrame x a⟩ := fun _ => ⟨queues, rfl, createFrame_outside idle.outside a⟩
      cases a with
      | timer now =>
          obtain ⟨same, away⟩ := switchOf_timer idle.queues now
          rw [← same]
          cases switch : switchOf x.machine (.timer now) with
          | none => exact ⟨iff_of_true rfl rfl, fun _ => quiet switch⟩
          | some pair =>
              obtain ⟨old, next⟩ := pair
              -- the thread that is resumed was not suspended inside the handler
              have out : storeFrame x.inHandler old true next = false := by
                unfold storeFrame
                cases old with
                | none => exact idle.outside next
                | some o =>
                    have ne : next ≠ o := fun eq => away _ _ switch (congrArg some eq.symm)
                    dsimp only
                    rw [Function.update_of_ne ne]
                    exact idle.outside next
              refine ⟨iff_of_false ?_ (by simp), fun calm => absurd calm (by simp)⟩
              show ¬ ((true || x.inService) && !storeFrame x.inHandler old true next) = false
              rw [out]
              simp
      | timerLocked => exact ⟨iff_of_true rfl rfl, fun _ => quiet rfl⟩
      | _ => cases timer

theorem irqBoot_idle : IrqIdle irqBoot := ⟨bootMachine_queueOk, rfl, fun _ => rfl⟩

/-- Code outside the handler never finds a timer interrupt in service just in the runs
whose timer interrupts take the CPU from nobody. -/
theorem acknowledged_iff (as : List Action) :
    AllSteps irqStep Acknowledges irqBoot as ↔
      AllSteps irqStep (fun x a => preempts x.machine a = false) irqBoot as :=
  allSteps_iff_of_invariant (fun _ a idle calm => (irqStep_idle idle a).2 calm)
    (fun _ a idle => (irqStep_idle idle a).1) irqBoot_idle

/-- Two threads; the first one runs until its quantum is used up. -/
def preemptedByNew : List Action :=
  [.create true true, .create true true, .yield, .schedule, .switch] ++
    (List.range timeSliceDefault.toNat).map .timer

/-- The second one then runs for the first time, with the interrupt in service. -/
theorem acknowledged_broken : ¬ AllSteps irqStep Acknowledges irqBoot preemptedByNew := by
  unfold Acknowledges
  decide +kernel

end NTux.Sched
