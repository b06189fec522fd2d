import NTux.Sched.Acknowledge

/-!
# The page-table root of a thread

`schedule_core` loads the root that the record of the next thread has, or the kernel's.
`elf_launch_thread` and `hello_launch_thread` load roots by hand: the one of the launch
while `load_elf_image` copies, the saved one again, and the one of the launch once more
behind `thread_set_current_cr3`.

A thread gets the root back that it had when its record says so at the moment it loses
the CPU (`RootRecorded`).  That leaves out a launch between its first two writes of CR3
and between `thread_set_current_cr3` and the last one.
-/

namespace NTux.Sched

open NTux.Lib

/-- Where code stands in a launch: `load_elf_image` is running, the saved root is loaded
again, or the record has the new one. -/
inductive Launch
  | none
  | loading (userCr3 savedCr3 : Nat)
  | loaded (userCr3 : Nat)
  | recorded (userCr3 : Nat)
  deriving DecidableEq

/-- The machine with CR3. -/
structure RootMachine where
  machine : Machine
  cr3 : Nat
  /-- `g_kernel_cr3`. -/
  kernelCr3 : Nat
  /-- `t->cr3`, 0 where there is no thread. -/
  recorded : Nat → Nat
  /-- Where the executing code stands in a launch. -/
  launch : Launch
  /-- Where the stored context of a thread stands in one. -/
  saved : Nat → Launch
  /-- The root that was loaded when `schedule_core` took the CPU from a thread. -/
  left : Nat → Option Nat

/-- The machine before its first action, with the root it was started with. -/
def rootBoot (root : Nat) : RootMachine :=
  ⟨bootMachine, root, 0, fun _ => 0, .none, fun _ => .none, fun _ => none⟩

/-- An action of the scheduler, or a step of a launch: `write_cr3(user_cr3)`, a byte that
`load_elf_image` copies, `write_cr3(saved_cr3)` on failure and on success,
`thread_set_current_cr3` and the last `write_cr3(user_cr3)`. -/
inductive RootAction
  | sched (a : Action)
  | launch (userCr3 : Nat)
  | copy
  | fail
  | restore
  | record
  | enter

/-- The thread that `schedule_core` takes the CPU from, and the one it gives it to. -/
def handOver (m : Machine) (a : Action) : Option (Option Nat × Nat) :=
  match a with
  | .timer _ => switchOf m a
  | .schedule =>
      match m.cpu.phase with
      | .calling _ => chosenSwitch m.sched
      | _ => none
  | _ => none

/-- `g_kernel_cr3` after `schedule_core` has set it. -/
def RootMachine.kernelRoot (x : RootMachine) : Nat :=
  if x.kernelCr3 = 0 then x.cr3 else x.kernelCr3

/-- `next->cr3 ? next->cr3 : g_kernel_cr3`. -/
def RootMachine.target (x : RootMachine) (t : Nat) : Nat :=
  if x.recorded t = 0 then x.kernelRoot else x.recorded t

/-- The CPU is taken from a thread. -/
def RootMachine.leave (x : RootMachine) (old : Option Nat) : Nat → Option Nat :=
  match old with
  | some o => Function.update x.left o (some x.cr3)
  | none => x.left

@[simp] theorem handOver_timer (m : Machine) (now : Nat) :
    handOver m (.timer now) = switchOf m (.timer now) := rfl

/-- What `schedule_core` does to the roots. -/
def RootMachine.scheduleRoots (x : RootMachine) (a : Action) : RootMachine :=
  match handOver x.machine a with
  | some (old, next) =>
      { x with kernelCr3 := x.kernelRoot
               cr3 := if x.target next = 0 then x.cr3 else x.target next
               left := x.leave old }
  | none => x

/-- The stored contexts after a switch that suspends `old`. -/
def RootMachine.store (x : RootMachine) (old : Option Nat) : Nat → Launch :=
  match old with
  | some o => Function.update x.saved o x.launch
  | none => x.saved

/-- What `switch_context` does to the contexts. -/
def RootMachine.switchLaunch (x : RootMachine) (a : Action) : RootMachine :=
  match switchOf x.machine a with
  | some (old, next) => { x with launch := x.store old next, saved := x.store old }
  | none => x

/-- A thread that is not in the table has neither a record nor a context, and the current
one is not suspended. -/
def RootMachine.settle (x : RootMachine) (m : Machine) : RootMachine :=
  { x with
    machine := m
    recorded := fun t => if (m.sched.threadList t).isSome then x.recorded t else 0
    saved := fun t => if (m.sched.threadList t).isSome then x.saved t else .none
    left := fun t =>
      if (m.sched.threadList t).isSome ∧ m.sched.currentThreadId ≠ some t then x.left t
      else none }

/-- `thread_set_current_cr3`. -/
def RootMachine.setCurrentCr3 (x : RootMachine) (root : Nat) : RootMachine :=
  match oldThread x.machine.sched with
  | some t => { x with recorded := Function.update x.recorded t root }
  | none => x

/-- The root that `clone_kernel_pml4` returns is a page that is no root of another thread
nor the kernel's. -/
def RootMachine.Fresh (x : RootMachine) (root : Nat) : Prop :=
  root ≠ 0 ∧ root ≠ x.kernelCr3 ∧ ∀ t < x.machine.sched.nextThreadId, x.recorded t ≠ root

instance (x : RootMachine) (root : Nat) : Decidable (x.Fresh root) :=
  inferInstanceAs (Decidable (_ ∧ _ ∧ _))

/-- Code of a thread, outside the scheduler. -/
def Context.launches (c : Context) : Bool :=
  match c with
  | ⟨.thread _, .running⟩ => true
  | _ => false

/-- The action of the scheduler that takes place.  A launch calls none of its functions,
but the timer may interrupt it at any point. -/
def RootMachine.scheduled (x : RootMachine) : RootAction → Option Action
  | .sched a => if x.launch = .none ∨ a.isTimer then some a else none
  | _ => none

/-- A step of a launch. -/
def launchStep (x : RootMachine) : RootAction → RootMachine
  | .launch userCr3 =>
      if x.launch = .none ∧ x.machine.cpu.launches ∧ x.Fresh userCr3 then
        { x with cr3 := userCr3, launch := .loading userCr3 x.cr3 }
      else x
  | .fail =>
      match x.launch with
      | .loading _ savedCr3 => { x with cr3 := savedCr3, launch := .none }
      | _ => x
  | .restore =>
      match x.launch with
      | .loading userCr3 savedCr3 => { x with cr3 := savedCr3, launch := .loaded userCr3 }
      | _ => x
  | .record =>
      match x.launch with
      | .loaded userCr3 => { x.setCurrentCr3 userCr3 with launch := .recorded userCr3 }
      | _ => x
  | .enter =>
      match x.launch with
      | .recorded userCr3 => { x with cr3 := userCr3, launch := .none }
      | _ => x
  | _ => x

/-- One action. -/
def rootStep (x : RootMachine) (a : RootAction) : RootMachine :=
  match x.scheduled a with
  | some a => ((x.scheduleRoots a).switchLaunch a).settle (machineStep x.machine a)
  | none => launchStep x a

/-- The thread that loses the CPU by an action, and the one that gets it. -/
def RootMachine.hands (x : RootMachine) (a : RootAction) : Option (Option Nat × Nat) :=
  (x.scheduled a).bind (handOver x.machine)

/-- The address space that a byte of an image is for. -/
def RootMachine.copiesTo (x : RootMachine) (a : RootAction) : Option Nat :=
  match a, x.launch with
  | .copy, .loading userCr3 _ => some userCr3
  | _, _ => none

/-- A thread that is given the CPU back finds the root it had when it lost it, and
`load_elf_image` copies to the address space of its launch. -/
def FollowsThread (x : RootMachine) (a : RootAction) : Prop :=
  (∀ pair ∈ x.hands a, ∀ root ∈ x.leave pair.1 pair.2, (rootStep x a).cr3 = root) ∧
    ∀ userCr3 ∈ x.copiesTo a, x.cr3 = userCr3

/-- A thread that loses the CPU has the root loaded that its record says. -/
def RootRecorded (x : RootMachine) (a : RootAction) : Prop :=
  ∀ pair ∈ x.hands a, ∀ t ∈ pair.1, x.cr3 = x.target t

instance (x : RootMachine) (a : RootAction) : Decidable (RootRecorded x a) :=
  inferInstanceAs (Decidable (∀ pair ∈ x.hands a, ∀ t ∈ pair.1, x.cr3 = x.target t))

instance (x : RootMachine) (a : RootAction) : Decidable (FollowsThread x a) :=
  inferInstanceAs (Decidable (_ ∧ _))

/-! ## The invariant -/

/-- A suspended thread had the root that its record says, the roots are the ones of the
launch while its image is copied, and no launch is suspended then. -/
structure RootsOk (x : RootMachine) : Prop where
  queues : MachineQueueOk x.machine
  loaded : x.cr3 ≠ 0
  left : ∀ t root, x.left t = some root → root = x.target t
  current : ∀ t, x.machine.sched.currentThreadId = some t → x.left t = none
  absent : ∀ t, x.machine.sched.threadList t = none → x.recorded t = 0
  first : x.kernelCr3 = 0 → (∀ t, x.left t = none) ∧
    (∀ t, x.machine.cpu.stack ≠ .thread t) ∧ x.machine.cpu.phase.isSwitching = false
  loading : ∀ userCr3 savedCr3, x.launch = .loading userCr3 savedCr3 →
    x.cr3 = userCr3 ∧ savedCr3 ≠ 0 ∧ x.kernelCr3 ≠ 0 ∧ userCr3 ≠ x.kernelCr3 ∧
      ∀ t, x.recorded t ≠ userCr3
  away : ∀ t userCr3 savedCr3, x.saved t ≠ .loading userCr3 savedCr3
  root : ∀ userCr3, x.launch = .loaded userCr3 ∨ x.launch = .recorded userCr3 → userCr3 ≠ 0
  rootAway : ∀ t userCr3, x.saved t = .loaded userCr3 ∨ x.saved t = .recorded userCr3 →
    userCr3 ≠ 0

/-! ### The machine before its first switch -/

/-- Behind `scheduler()` code goes on on its stack. -/
theorem afterScheduler_frame {m : Machine} (still : m.cpu.phase.isSwitching = false) (k : Resume)
    (now : Nat) :
    (afterScheduler m k now).cpu.stack = m.cpu.stack ∧
      (afterScheduler m k now).cpu.phase.isSwitching = false := by
  unfold afterScheduler
  cases k with
  | network => exact ⟨rfl, rfl⟩
  | yieldLoop =>
      dsimp only
      split
      · exact ⟨rfl, rfl⟩
      · exact ⟨rfl, rfl⟩
  | exitLoop =>
      dsimp only
      split
      · exact ⟨rfl, rfl⟩
      · exact ⟨rfl, rfl⟩
  | wait tid wake =>
      cases tid with
      | none => exact ⟨rfl, rfl⟩
      | some tid =>
          dsimp only
          split
          · exact ⟨rfl, rfl⟩
          · split
            · exact ⟨rfl, still⟩
            · exact ⟨rfl, rfl⟩

/-- A timer interrupt that does not switch returns to the code it interrupts. -/
theorem timerHandler_stays {m : Machine} {now : Nat} (stays : switchOf m (.timer now) = none) :
    (timerHandler m now).cpu = m.cpu := by
  simp only [switchOf] at stays
  unfold timerHandler
  dsimp only
  cases timed : timedThread (timerWake m.sched now) with
  | none => rfl
  | some tid =>
      rw [timed, Option.bind_some] at stays
      dsimp only
      split
      next used =>
        rw [if_pos used] at stays
        unfold schedulerFromIrq
        dsimp only
        cases picked : (scheduleCore (countTick (timerWake m.sched now) tid)).switchTo with
        | none => rfl
        | some next =>
            rw [chosenSwitch, picked] at stays
            exact absurd stays (by simp)
      · rfl

/-- Without a switch, code that is on no thread's stack gets on none. -/
theorem machineStep_before {m : Machine} {a : Action} (off : ∀ t, m.cpu.stack ≠ .thread t)
    (still : m.cpu.phase.isSwitching = false) (stays : handOver m a = none) :
    (∀ t, (machineStep m a).cpu.stack ≠ .thread t) ∧
      (machineStep m a).cpu.phase.isSwitching = false := by
  have idle : machineStep m a = m → (∀ t, (machineStep m a).cpu.stack ≠ .thread t) ∧
      (machineStep m a).cpu.phase.isSwitching = false := by
    intro same
    rw [same]
    exact ⟨off, still⟩
  have running : m.cpu.phase = .running → (∀ t, (runningStep m a).cpu.stack ≠ .thread t) ∧
      (runningStep m a).cpu.phase.isSwitching = false := by
    intro phase
    obtain ⟨stack, -, stillAfter⟩ := runningStep_frame a phase
    refine ⟨fun t own => ?_, stillAfter⟩
    rcases stack with same | ⟨exit, -⟩
    · exact off t (same.symm.trans own)
    · exact absurd (exit.symm.trans own) (by simp)
  cases a with
  | timer now =>
      rw [handOver_timer] at stays
      show (∀ t, (timerHandler m now).cpu.stack ≠ .thread t) ∧
        (timerHandler m now).cpu.phase.isSwitching = false
      rw [timerHandler_stays stays]
      exact ⟨off, still⟩
  | timerLocked =>
      show (∀ t, (timerHandlerLocked m).cpu.stack ≠ .thread t) ∧
        (timerHandlerLocked m).cpu.phase.isSwitching = false
      unfold timerHandlerLocked
      split
      · exact ⟨off, still⟩
      · exact ⟨off, still⟩
  | schedule =>
      unfold machineStep at idle ⊢
      cases phase : m.cpu.phase with
      | calling k =>
          simp only [handOver, phase, chosenSwitch, Option.map_eq_none_iff] at stays
          dsimp only
          rw [schedulerCall_stack]
          refine ⟨off, ?_⟩
          unfold schedulerCall
          dsimp only
          rw [stays]
          rfl
      | running => exact running phase
      | _ =>
          simp only [phase] at idle ⊢
          exact idle trivial
  | switch =>
      unfold machineStep at idle ⊢
      cases phase : m.cpu.phase with
      | switching old next k =>
          rw [phase] at still
          exact absurd still (by simp [Phase.isSwitching])
      | running => exact running phase
      | _ =>
          simp only [phase] at idle ⊢
          exact idle trivial
  | proceed now =>
      unfold machineStep at idle ⊢
      cases phase : m.cpu.phase with
      | returned k =>
          obtain ⟨stack, stillAfter⟩ := afterScheduler_frame still k now
          dsimp only
          rw [stack]
          exact ⟨off, stillAfter⟩
      | running => exact running phase
      | _ =>
          simp only [phase] at idle ⊢
          exact idle trivial
  | _ =>
      unfold machineStep at idle ⊢
      cases phase : m.cpu.phase with
      | running => exact running phase
      | _ =>
          simp only [phase] at idle ⊢
          exact idle trivial

/-! ### Steps -/

section Steps

variable {x : RootMachine}

theorem RootsOk.kernelRoot_ne (ok : RootsOk x) : x.kernelRoot ≠ 0 := by
  unfold RootMachine.kernelRoot
  split
  · exact ok.loaded
  · assumption

theorem RootsOk.target_ne (ok : RootsOk x) (t : Nat) : x.target t ≠ 0 := by
  unfold RootMachine.target
  split
  · exact ok.kernelRoot_ne
  · assumption

/-- What `schedule_core` leaves: it loads the root of the next thread's record, and the
thread that loses the CPU has had the one of its own. -/
theorem scheduleRoots_spec (ok : RootsOk x) {a : Action}
    (rec : ∀ pair ∈ handOver x.machine a, ∀ t ∈ pair.1, x.cr3 = x.target t) :
    (x.scheduleRoots a).cr3 ≠ 0 ∧
      (∀ t, (x.scheduleRoots a).target t = x.target t) ∧
      (∀ t root, (x.scheduleRoots a).left t = some root → root = x.target t) ∧
      (∀ pair ∈ handOver x.machine a, (x.scheduleRoots a).left = x.leave pair.1 ∧
        (x.scheduleRoots a).cr3 = x.target pair.2 ∧ (x.scheduleRoots a).kernelCr3 ≠ 0) ∧
      (handOver x.machine a = none → x.scheduleRoots a = x) ∧
      (x.kernelCr3 ≠ 0 → (x.scheduleRoots a).kernelCr3 = x.kernelCr3) := by
  unfold RootMachine.scheduleRoots
  cases hands : handOver x.machine a with
  | none =>
      exact ⟨ok.loaded, fun _ => rfl, ok.left, by simp, fun _ => rfl, fun _ => rfl⟩
  | some pair =>
      obtain ⟨old, next⟩ := pair
      have loads : (if x.target next = 0 then x.cr3 else x.target next) = x.target next :=
        if_neg (ok.target_ne next)
      dsimp only
      rw [loads]
      refine ⟨ok.target_ne next, fun t => ?_, fun t root eq => ?_, fun pair mem => ?_, by simp,
        fun set => if_neg set⟩
      · show (if x.recorded t = 0 then (if x.kernelRoot = 0 then x.target next else x.kernelRoot)
          else x.recorded t) = x.target t
        rw [if_neg ok.kernelRoot_ne]
        rfl
      · cases old with
        | none => exact ok.left t root eq
        | some o =>
            change Function.update x.left o (some x.cr3) t = some root at eq
            rcases eq_or_ne t o with rfl | ne
            · rw [Function.update_self] at eq
              rw [← Option.some.inj eq]
              exact rec (some t, next) hands t rfl
            · rw [Function.update_of_ne ne] at eq
              exact ok.left t root eq
      · obtain rfl := Option.some.inj mem
        exact ⟨rfl, rfl, ok.kernelRoot_ne⟩

/-- No launch whose image is being copied is suspended. -/
theorem store_away (ok : RootsOk x) {a : Action} (allowed : x.launch = .none ∨ a.isTimer = true)
    (rec : ∀ pair ∈ handOver x.machine a, ∀ t ∈ pair.1, x.cr3 = x.target t)
    {old : Option Nat} {next : Nat} (switch : switchOf x.machine a = some (old, next))
    (t userCr3 savedCr3 : Nat) : x.store old t ≠ .loading userCr3 savedCr3 := by
  unfold RootMachine.store
  cases old with
  | none => exact ok.away t userCr3 savedCr3
  | some o =>
      rcases eq_or_ne t o with rfl | ne
      · dsimp only
        rw [Function.update_self]
        intro loading
        obtain ⟨cr3, -, kernel, other, free⟩ := ok.loading _ _ loading
        -- only the timer interrupts a launch, and the record does not have its root
        have timer : a.isTimer = true := allowed.resolve_left (by rw [loading]; simp)
        have hands : handOver x.machine a = some (some t, next) := by
          cases a with
          | timer now => rw [handOver_timer, switch]
          | timerLocked => exact absurd switch (by simp [switchOf])
          | _ => exact absurd timer (by simp [Action.isTimer])
        have same := rec _ hands t rfl
        rw [cr3] at same
        unfold RootMachine.target RootMachine.kernelRoot at same
        rw [if_neg kernel] at same
        split at same
        · exact other same
        · exact free t same.symm
      · dsimp only
        rw [Function.update_of_ne ne]
        exact ok.away t userCr3 savedCr3

theorem store_root (ok : RootsOk x) {old : Option Nat} {t userCr3 : Nat}
    (stands : x.store old t = .loaded userCr3 ∨ x.store old t = .recorded userCr3) :
    userCr3 ≠ 0 := by
  unfold RootMachine.store at stands
  cases old with
  | none => exact ok.rootAway t userCr3 stands
  | some o =>
      rcases eq_or_ne t o with rfl | ne
      · simp only [Function.update_self] at stands
        exact ok.root userCr3 stands
      · simp only [Function.update_of_ne ne] at stands
        exact ok.rootAway t userCr3 stands

/-- A switch moves launches, and nothing else. -/
theorem switchLaunch_frame (y : RootMachine) (a : Action) :
    (y.switchLaunch a).cr3 = y.cr3 ∧ (y.switchLaunch a).kernelCr3 = y.kernelCr3 ∧
      (y.switchLaunch a).recorded = y.recorded ∧ (y.switchLaunch a).left = y.left := by
  unfold RootMachine.switchLaunch
  split
  · exact ⟨rfl, rfl, rfl, rfl⟩
  · exact ⟨rfl, rfl, rfl, rfl⟩

/-- `schedule_core` touches no launch. -/
theorem scheduleRoots_frame (y : RootMachine) (a : Action) :
    (y.scheduleRoots a).machine = y.machine ∧ (y.scheduleRoots a).launch = y.launch ∧
      (y.scheduleRoots a).saved = y.saved ∧ (y.scheduleRoots a).recorded = y.recorded := by
  unfold RootMachine.scheduleRoots
  split
  · exact ⟨rfl, rfl, rfl, rfl⟩
  · exact ⟨rfl, rfl, rfl, rfl⟩

/-- The root of a thread of the table. -/
theorem settle_target (z : RootMachine) {m : Machine} {t : Nat}
    (there : (m.sched.threadList t).isSome = true) : (z.settle m).target t = z.target t := by
  have recorded : (z.settle m).recorded t = z.recorded t := if_pos there
  unfold RootMachine.target
  rw [recorded]
  rfl

/-- Where the launches stand after an action of the scheduler. -/
theorem switchLaunch_spec (ok : RootsOk x) {a : Action}
    (allowed : x.launch = .none ∨ a.isTimer = true)
    (rec : ∀ pair ∈ handOver x.machine a, ∀ t ∈ pair.1, x.cr3 = x.target t) :
    (∀ userCr3 savedCr3, ((x.scheduleRoots a).switchLaunch a).launch =
        .loading userCr3 savedCr3 → x.launch = .loading userCr3 savedCr3 ∧
          switchOf x.machine a = none) ∧
      (∀ t userCr3 savedCr3, ((x.scheduleRoots a).switchLaunch a).saved t ≠
        .loading userCr3 savedCr3) ∧
      (∀ userCr3, ((x.scheduleRoots a).switchLaunch a).launch = .loaded userCr3 ∨
        ((x.scheduleRoots a).switchLaunch a).launch = .recorded userCr3 → userCr3 ≠ 0) ∧
      ∀ t userCr3, ((x.scheduleRoots a).switchLaunch a).saved t = .loaded userCr3 ∨
        ((x.scheduleRoots a).switchLaunch a).saved t = .recorded userCr3 → userCr3 ≠ 0 := by
  obtain ⟨machine, launch, saved, -⟩ := scheduleRoots_frame x a
  unfold RootMachine.switchLaunch RootMachine.store
  rw [machine, launch, saved]
  cases switch : switchOf x.machine a with
  | none =>
      dsimp only
      rw [launch, saved]
      exact ⟨fun _ _ loading => ⟨loading, rfl⟩, ok.away, ok.root, ok.rootAway⟩
  | some pair =>
      obtain ⟨old, next⟩ := pair
      have away := store_away ok allowed rec switch
      exact ⟨fun userCr3 savedCr3 loading => absurd loading (away next userCr3 savedCr3), away,
        fun userCr3 stands => store_root ok stands, fun t userCr3 stands => store_root ok stands⟩

/-- An action of the scheduler keeps the roots. -/
theorem scheduled_ok (ok : RootsOk x) {a : Action}
    (allowed : x.launch = .none ∨ a.isTimer = true)
    (rec : ∀ pair ∈ handOver x.machine a, ∀ t ∈ pair.1, x.cr3 = x.target t) :
    RootsOk (((x.scheduleRoots a).switchLaunch a).settle (machineStep x.machine a)) := by
  obtain ⟨loaded, target, left, hands, stays, kernel⟩ := scheduleRoots_spec ok rec
  obtain ⟨cr3', kernel', recorded', left'⟩ := switchLaunch_frame (x.scheduleRoots a) a
  obtain ⟨launchLoading, away, root, rootAway⟩ := switchLaunch_spec ok allowed rec
  obtain ⟨-, -, -, recorded⟩ := scheduleRoots_frame x a
  have target' : ∀ t, ((x.scheduleRoots a).switchLaunch a).target t = x.target t := by
    intro t
    rw [← target t]
    unfold RootMachine.target RootMachine.kernelRoot
    rw [cr3', kernel', recorded']
  generalize (x.scheduleRoots a).switchLaunch a = z at *
  refine ⟨machineStep_queueOk ok.queues a, ?_, fun t root eq => ?_, fun t current => ?_,
    fun t none => ?_, fun unset => ?_, fun userCr3 savedCr3 loading => ?_,
    fun t userCr3 savedCr3 loading => ?_, root, fun t userCr3 stands => ?_⟩
  · exact cr3' ▸ loaded
  · change (if _ then z.left t else none) = some root at eq
    split at eq
    next there =>
      rw [left'] at eq
      rw [left t root eq, ← target' t, settle_target z there.1]
    · cases eq
  · show (if _ ∧ (machineStep x.machine a).sched.currentThreadId ≠ some t then _ else none) = none
    exact if_neg fun there => there.2 current
  · have gone : (machineStep x.machine a).sched.threadList t = .none := none
    show (if ((machineStep x.machine a).sched.threadList t).isSome = true then _ else 0) = 0
    rw [gone]
    rfl
  · -- no root is recorded before the first switch
    have unsetX : x.kernelCr3 = 0 := by
      by_contra set
      exact set ((kernel set).symm.trans (kernel'.symm.trans unset))
    have none : handOver x.machine a = .none := by
      cases hand : handOver x.machine a with
      | none => rfl
      | some pair => exact absurd (kernel'.symm.trans unset) (hands pair hand).2.2
    obtain ⟨noLeft, off, still⟩ := ok.first unsetX
    refine ⟨fun t => ?_, machineStep_before off still none⟩
    show (if _ then z.left t else Option.none) = Option.none
    rw [left', stays none, noLeft t, ite_self]
  · obtain ⟨was, switch⟩ := launchLoading userCr3 savedCr3 loading
    obtain ⟨cr3, savedNe, set, other, free⟩ := ok.loading userCr3 savedCr3 was
    have none : handOver x.machine a = .none := by
      have timer : a.isTimer = true := allowed.resolve_left (by rw [was]; simp)
      cases a with
      | timer now => rw [handOver_timer, switch]
      | timerLocked => rfl
      | _ => exact absurd timer (by simp [Action.isTimer])
    refine ⟨?_, savedNe, ?_, ?_, fun t => ?_⟩
    · exact cr3'.trans ((congrArg RootMachine.cr3 (stays none)).trans cr3)
    · show z.kernelCr3 ≠ 0
      rw [kernel', kernel set]
      exact set
    · show userCr3 ≠ z.kernelCr3
      rw [kernel', kernel set]
      exact other
    · show (if _ then z.recorded t else 0) ≠ userCr3
      rw [recorded', recorded]
      split
      · exact free t
      · exact fun zero => ok.loaded (cr3.trans zero.symm)
  · change (if _ then z.saved t else .none) = .loading userCr3 savedCr3 at loading
    split at loading
    · exact away t userCr3 savedCr3 loading
    · cases loading
  · change (if _ then z.saved t else .none) = .loaded userCr3 ∨
      (if _ then z.saved t else .none) = .recorded userCr3 at stands
    split at stands
    · exact rootAway t userCr3 stands
    · exact absurd stands (by simp)

/-- Another root in CR3, while no image or another one is copied. -/
theorem RootsOk.setCr3 (ok : RootsOk x) {root : Nat} {launch : Launch} (ne : root ≠ 0)
    (loading : ∀ userCr3 savedCr3, launch = .loading userCr3 savedCr3 →
      root = userCr3 ∧ savedCr3 ≠ 0 ∧ x.kernelCr3 ≠ 0 ∧ userCr3 ≠ x.kernelCr3 ∧
        ∀ t, x.recorded t ≠ userCr3)
    (stands : ∀ userCr3, launch = .loaded userCr3 ∨ launch = .recorded userCr3 → userCr3 ≠ 0) :
    RootsOk { x with cr3 := root, launch := launch } := by
  refine ⟨ok.queues, ne, fun t r eq => ?_, ok.current, ok.absent, ok.first, loading, ok.away,
    stands, ok.rootAway⟩
  have set : x.kernelCr3 ≠ 0 := fun unset => by
    rw [(ok.first unset).1 t] at eq
    cases eq
  rw [ok.left t r eq]
  unfold RootMachine.target RootMachine.kernelRoot
  rw [if_neg set, if_neg set]

/-- A step of a launch keeps the roots. -/
theorem launchStep_ok (ok : RootsOk x) (a : RootAction) : RootsOk (launchStep x a) := by
  unfold launchStep
  cases a with
  | launch userCr3 =>
      dsimp only
      split
      next may =>
        obtain ⟨-, launches, ne, notKernel, free⟩ := may
        -- a thread runs, so there was a switch
        have set : x.kernelCr3 ≠ 0 := fun unset => by
          obtain ⟨-, off, -⟩ := ok.first unset
          unfold Context.launches at launches
          split at launches
          next t eq => exact off t (congrArg Context.stack eq)
          · cases launches
        refine ok.setCr3 ne (fun u s eq => ?_) (by simp)
        obtain ⟨rfl, rfl⟩ := Launch.loading.inj eq
        refine ⟨rfl, ok.loaded, set, notKernel, fun t => ?_⟩
        by_cases old : t < x.machine.sched.nextThreadId
        · exact free t old
        · obtain ⟨l, w, inv, -⟩ := ok.queues
          rw [ok.absent t (inv.fresh t (Nat.not_lt.1 old))]
          exact ne.symm
      · exact ok
  | fail =>
      dsimp only
      split
      next eq => exact ok.setCr3 (ok.loading _ _ eq).2.1 (by simp) (by simp)
      · exact ok
  | restore =>
      dsimp only
      split
      next eq =>
        obtain ⟨cr3, ne, -⟩ := ok.loading _ _ eq
        refine ok.setCr3 ne (by simp) fun u stands => ?_
        obtain rfl := Launch.loaded.inj (stands.resolve_right (by simp))
        exact cr3 ▸ ok.loaded
      · exact ok
  | record =>
      dsimp only
      split
      next userCr3 eq =>
        have ne := ok.root userCr3 (.inl eq)
        have stands : ∀ u, Launch.recorded userCr3 = .loaded u ∨
            Launch.recorded userCr3 = .recorded u → u ≠ 0 := by
          intro u same
          obtain rfl := Launch.recorded.inj (same.resolve_left (by simp))
          exact ne
        unfold RootMachine.setCurrentCr3
        cases current : oldThread x.machine.sched with
        | none =>
            exact ⟨ok.queues, ok.loaded, ok.left, ok.current, ok.absent, ok.first, by simp,
              ok.away, stands, ok.rootAway⟩
        | some t =>
            have live : (x.machine.sched.threadList t).isSome = true :=
              (Option.filter_eq_some_iff.1 current).2
            refine ⟨ok.queues, ok.loaded, fun u r eqU => ?_, ok.current, fun u none => ?_,
              ok.first, by simp, ok.away, stands, ok.rootAway⟩
            · -- the current thread is not suspended
              have other : u ≠ t := by
                rintro rfl
                rw [ok.current u (oldThread_eq current)] at eqU
                cases eqU
              rw [ok.left u r eqU]
              show x.target u = if Function.update x.recorded t userCr3 u = 0 then x.kernelRoot
                else Function.update x.recorded t userCr3 u
              rw [Function.update_of_ne other]
              rfl
            · have other : u ≠ t := by
                rintro rfl
                rw [none] at live
                cases live
              exact (Function.update_of_ne other _ _).trans (ok.absent u none)
      · exact ok
  | enter =>
      dsimp only
      split
      next userCr3 eq => exact ok.setCr3 (ok.root userCr3 (.inr eq)) (by simp) (by simp)
      · exact ok
  | _ => exact ok

end Steps

/-! ## Runs -/

theorem rootBoot_ok {root : Nat} (ne : root ≠ 0) : RootsOk (rootBoot root) := by
  refine ⟨bootMachine_queueOk, ne, by simp [rootBoot], fun _ _ => rfl, fun _ _ => rfl,
    fun _ => ⟨fun _ => rfl, by simp [rootBoot, bootMachine], rfl⟩, by simp [rootBoot],
    by simp [rootBoot], by simp [rootBoot], by simp [rootBoot]⟩

theorem rootStep_ok {x : RootMachine} {a : RootAction} (ok : RootsOk x)
    (rec : RootRecorded x a) : RootsOk (rootStep x a) := by
  unfold rootStep
  cases scheduled : x.scheduled a with
  | none => exact launchStep_ok ok a
  | some b =>
      cases a with
      | sched a =>
          unfold RootMachine.scheduled at scheduled
          dsimp only at scheduled
          split at scheduled
          next allowed =>
            obtain rfl := Option.some.inj scheduled
            refine scheduled_ok ok allowed fun pair mem => rec pair ?_
            unfold RootMachine.hands RootMachine.scheduled
            dsimp only
            rw [if_pos allowed]
            exact mem
          · cases scheduled
      | _ => cases scheduled

/-- A step that starts well ends with the right root. -/
theorem rootStep_follows {x : RootMachine} {a : RootAction} (ok : RootsOk x)
    (rec : RootRecorded x a) : FollowsThread x a := by
  constructor
  · intro pair mem root suspended
    unfold RootRecorded at rec
    unfold RootMachine.hands at mem rec
    obtain ⟨b, scheduled, hand⟩ := Option.bind_eq_some_iff.1 mem
    rw [scheduled, Option.bind_some] at rec
    obtain ⟨-, -, left, hands, -⟩ := scheduleRoots_spec ok rec
    obtain ⟨same, cr3, -⟩ := hands pair hand
    unfold rootStep
    rw [scheduled]
    show ((x.scheduleRoots b).switchLaunch b).cr3 = root
    rw [(switchLaunch_frame _ b).1, cr3]
    exact (left pair.2 root (same ▸ suspended)).symm
  · intro userCr3 mem
    unfold RootMachine.copiesTo at mem
    split at mem
    next savedCr3 loading =>
      obtain rfl := Option.some.inj mem
      exact (ok.loading _ _ loading).1
    · cases mem

/-- In every run in which each thread that loses the CPU has the root loaded that its
record says, every thread finds the root again that it had, and every byte of an image is
copied to the address space of its launch. -/
theorem roots_follow_threads {root : Nat} (ne : root ≠ 0) (as : List RootAction)
    (rec : AllSteps rootStep RootRecorded (rootBoot root) as) :
    AllSteps rootStep FollowsThread (rootBoot root) as := by
  have keep : ∀ x a, RootsOk x → RootRecorded x a → RootsOk (rootStep x a) :=
    fun _ _ ok rec => rootStep_ok ok rec
  exact AllSteps.of_invariant keep (fun _ _ ok rec => rootStep_follows ok rec) (rootBoot_ok ne) rec

/-- Two threads; the first one starts to launch an image. -/
def launchStarts : List RootAction :=
  [.sched (.create true true), .sched (.create true true), .sched .yield, .sched .schedule,
    .sched .switch, .launch 0x5000]

/-- A tick that uses up the quantum, and the second thread yields. -/
def preemptAndReturn : List RootAction :=
  (List.range timeSliceDefault.toNat).map (fun now => .sched (.timer now)) ++
    [.sched .yield, .sched .schedule, .sched .switch]

/-- The timer may interrupt the thread once the launch is over. -/
theorem roots_follow_launched :
    AllSteps rootStep FollowsThread (rootBoot 0x1000)
      (launchStarts ++ [.copy, .restore, .record, .enter] ++ preemptAndReturn) :=
  roots_follow_threads (by decide) _ (by decide +kernel)

/-- Interrupted before that, it goes on to copy to the kernel's address space. -/
theorem roots_lost :
    ¬ AllSteps rootStep FollowsThread (rootBoot 0x1000)
      (launchStarts ++ preemptAndReturn ++ [.copy]) := by
  decide +kernel

end NTux.Sched
