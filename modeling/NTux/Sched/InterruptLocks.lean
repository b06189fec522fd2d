import NTux.Sched.StackRun

/-!
# Locks and the timer interrupt

There is one CPU, and code that holds a lock may be interrupted.  What `timer_handler`
runs then must not spin on a lock of the code it interrupts, which cannot release it.

`timerHandlerLocks` is `timer_handler` with its locks.  The thread lock it only tries,
but behind that, three calls deeper, `thread_reap_terminated` frees what terminated
threads leave, and `kfree` spins on the lock of the allocator.  So the handler hangs
exactly if it interrupts `kmalloc` or `kfree`, reschedules, and finds a thread to reap.
Where it returns, it does what the machine's timer interrupt does.
-/

namespace NTux.Sched

open NTux.Lib

/-- The spin locks that `timer_handler` can meet: `g_thread_lock` and `g_kmalloc_lock`. -/
inductive Lock
  | thread
  | kmalloc
  deriving DecidableEq

/-- `kfree` as far as its lock goes; a lock that is held is never released under it. -/
def kfreeLocks (held : Lock → Bool) : Except Lock Unit :=
  if held .kmalloc then .error .kmalloc else .ok ()

/-- So many calls of `kfree`. -/
def kfreeTimes (held : Lock → Bool) : Nat → Except Lock Unit
  | 0 => .ok ()
  | n + 1 => do
      kfreeLocks held
      kfreeTimes held n

/-- The body of the loop of `thread_reap_terminated`: it frees the file buffers of the
thread, its stack and its record. -/
def reapOneLocks (held : Lock → Bool) (buffers : Nat → Nat) (s : SchedState) (i : Nat) :
    Except Lock SchedState :=
  match s.threadList i with
  | none => .ok s
  | some t =>
      if t.state ≠ .terminated then .ok s
      else if s.currentThreadId = some i then .ok s
      else do
        kfreeTimes held (buffers i + 2)
        return reapOne s i

/-- `thread_reap_terminated`. -/
def threadReapLocks (held : Lock → Bool) (buffers : Nat → Nat) (s : SchedState) :
    Except Lock SchedState :=
  (List.range maxThreads).foldlM (reapOneLocks held buffers) s

/-- `scheduler_from_irq`, which begins with the reaping. -/
def schedulerFromIrqLocks (held : Lock → Bool) (buffers : Nat → Nat) (m : Machine) :
    Except Lock Machine := do
  let _ ← threadReapLocks held buffers m.sched
  return schedulerFromIrq m

/-- `timer_handler` at the tick `now`; it tries the thread lock before the wake loop and
before it reschedules. -/
def timerHandlerLocks (held : Lock → Bool) (buffers : Nat → Nat) (m : Machine) (now : Nat) :
    Except Lock Machine :=
  let s := if m.sched.wakeList.head.isSome ∧ !held .thread then timerWake m.sched now else m.sched
  match timedThread s with
  | none => .ok { m with sched := s }
  | some tid =>
      let s := countTick s tid
      if quantumUsed s tid ∧ !held .thread then
        schedulerFromIrqLocks held buffers { m with sched := s }
      else .ok { m with sched := s }

/-! ## What the handler waits for -/

section Handler

variable {held : Lock → Bool} {buffers : Nat → Nat} {s : SchedState} {m : Machine}

/-- The reaper has a thread to free. -/
def reapable (s : SchedState) (i : Nat) : Bool :=
  isTerminated s i && decide (s.currentThreadId ≠ some i)

/-- There is a thread to reap. -/
def someReapable (s : SchedState) : Bool := (List.range maxThreads).any (reapable s)

theorem kfreeTimes_free (free : held .kmalloc = false) (n : Nat) :
    kfreeTimes held n = .ok () := by
  induction n with
  | zero => rfl
  | succ n ih =>
      rw [kfreeTimes, kfreeLocks, free]
      exact ih

theorem kfreeTimes_held (taken : held .kmalloc = true) (n : Nat) :
    kfreeTimes held (n + 1) = .error .kmalloc := by
  rw [kfreeTimes, kfreeLocks, taken]
  rfl

theorem reapOneLocks_free (free : held .kmalloc = false) (i : Nat) :
    reapOneLocks held buffers s i = .ok (reapOne s i) := by
  unfold reapOneLocks
  cases eq : s.threadList i with
  | none => simp only [reapOne, eq]
  | some t =>
      dsimp only
      split
      next state => simp only [reapOne, eq, if_pos state]
      next state =>
        split
        next current => simp only [reapOne, eq, if_neg state, if_pos current]
        · rw [kfreeTimes_free free]
          rfl

theorem reapOneLocks_held (taken : held .kmalloc = true) (i : Nat) :
    reapOneLocks held buffers s i = if reapable s i then .error .kmalloc else .ok s := by
  unfold reapOneLocks reapable isTerminated
  cases eq : s.threadList i with
  | none => rfl
  | some t =>
      simp only [Option.any_some]
      by_cases state : t.state = .terminated
      · by_cases current : s.currentThreadId = some i
        · simp [state, current]
        · rw [if_neg (not_not.2 state), if_neg current, kfreeTimes_held taken]
          simp [state, current]
      · simp [state]

/-- With the allocator free, the reaper does its work. -/
theorem threadReapLocks_free (free : held .kmalloc = false) :
    threadReapLocks held buffers s = .ok (threadReapTerminated s) := by
  unfold threadReapLocks threadReapTerminated
  generalize List.range maxThreads = is
  induction is generalizing s with
  | nil => rfl
  | cons i is ih =>
      rw [List.foldlM_cons, reapOneLocks_free free]
      exact ih

/-- Under the lock of the allocator, the reaper hangs at the first thread it would free. -/
theorem threadReapLocks_held (taken : held .kmalloc = true) :
    threadReapLocks held buffers s =
      if someReapable s then .error .kmalloc else .ok s := by
  unfold threadReapLocks someReapable
  generalize List.range maxThreads = is
  induction is with
  | nil => rfl
  | cons i is ih =>
      rw [List.foldlM_cons, reapOneLocks_held taken, List.any_cons]
      cases first : reapable s i with
      | true => rfl
      | false =>
          rw [Bool.false_or]
          exact ih

/-- Waking threads and counting ticks end nobody. -/
theorem isTerminated_modify {t u : Nat} {f : Thread → Thread}
    (same : ∀ th, s.threadList t = some th → ((f th).state = .terminated ↔ th.state = .terminated)) :
    isTerminated (s.modify t f) u = isTerminated s u := by
  unfold isTerminated
  rcases eq_or_ne u t with rfl | ne
  · rw [SchedState.modify_threadList_self, Option.any_map]
    cases eq : s.threadList u with
    | none => rfl
    | some th => simp [same th eq]
  · rw [SchedState.modify_threadList_of_ne _ _ _ ne]

theorem someReapable_congr {s' : SchedState} (current : s'.currentThreadId = s.currentThreadId)
    (dead : ∀ i, isTerminated s' i = isTerminated s i) : someReapable s' = someReapable s := by
  unfold someReapable
  congr 1
  funext i
  rw [reapable, reapable, current, dead]

theorem timerWakeOne_reapable (now t : Nat) :
    someReapable (timerWakeOne s now t) = someReapable s := by
  unfold timerWakeOne
  split
  · rfl
  next th eq =>
    split
    next due =>
      have woken : ∀ u, isTerminated (s.modify t
          fun th => { th with state := .ready, wakeTick := 0 }) u = isTerminated s u := by
        intro u
        refine isTerminated_modify fun th' eq' => ?_
        obtain rfl := Option.some.inj (eq.symm.trans eq')
        simp [due.1]
      have queued : ∀ u, isTerminated (rqEnqueue (s.modify t
          fun th => { th with state := .ready, wakeTick := 0 }) t) u = isTerminated s u := by
        intro u
        rw [isTerminated, rqEnqueue_threadList]
        exact woken u
      dsimp only
      split
      · exact someReapable_congr (rqEnqueue_currentThreadId _ _) queued
      · exact someReapable_congr (rqEnqueue_currentThreadId _ _) queued
    · rfl

theorem timerWake_reapable (now : Nat) : someReapable (timerWake s now) = someReapable s :=
  timerWake_induction (P := fun s' => someReapable s' = someReapable s)
    (fun _ t same => (timerWakeOne_reapable now t).trans same) rfl

theorem countTick_reapable (tid : Nat) : someReapable (countTick s tid) = someReapable s :=
  someReapable_congr rfl fun _ => isTerminated_modify fun _ _ => Iff.rfl

/-- An empty wake list has nobody to wake. -/
theorem timerWake_empty {now : Nat} (empty : ¬ s.wakeList.head.isSome = true) :
    timerWake s now = s := by
  have none : s.wakeList.head = none := by simpa using empty
  rw [timerWake, none]
  rfl

/-- The handler with the thread lock taken. -/
theorem timerHandlerLocks_taken (taken : held .thread = true) (now : Nat) :
    timerHandlerLocks held buffers m now = .ok (timerHandlerLocked m) := by
  unfold timerHandlerLocks timerHandlerLocked
  simp only [taken, Bool.not_true, Bool.false_eq_true, and_false, if_false]
  cases timedThread m.sched with
  | none => rfl
  | some tid => rfl

/-- The handler with the thread lock free: it wakes, counts and, where that is due, goes
on to the scheduler. -/
theorem timerHandlerLocks_free (free : held .thread = false) (now : Nat) :
    timerHandlerLocks held buffers m now =
      if timerReschedules m.sched now ∧ held .kmalloc ∧ someReapable m.sched then
        .error .kmalloc
      else .ok (timerHandler m now) := by
  have woken : (if m.sched.wakeList.head.isSome ∧ !held .thread then timerWake m.sched now
      else m.sched) = timerWake m.sched now := by
    by_cases empty : m.sched.wakeList.head.isSome = true
    · rw [if_pos ⟨empty, by rw [free]; rfl⟩]
    · rw [if_neg fun both => empty both.1, timerWake_empty empty]
  unfold timerHandlerLocks timerHandler timerReschedules
  rw [woken]
  dsimp only
  cases timed : timedThread (timerWake m.sched now) with
  | none => simp
  | some tid =>
      have same : someReapable (countTick (timerWake m.sched now) tid) = someReapable m.sched :=
        (countTick_reapable tid).trans (timerWake_reapable now)
      simp only [Option.any_some]
      by_cases used : quantumUsed (countTick (timerWake m.sched now) tid) tid = true
      · rw [if_pos ⟨used, by rw [free]; rfl⟩, if_pos used, schedulerFromIrqLocks]
        cases taken : held .kmalloc with
        | false =>
            rw [threadReapLocks_free taken, if_neg (by simp)]
            rfl
        | true =>
            rw [threadReapLocks_held taken, same]
            cases dead : someReapable m.sched with
            | true =>
                simp only [used]
                rfl
            | false =>
                simp only [Bool.false_eq_true, and_false, if_false]
                rfl
      · rw [if_neg fun both => used both.1, if_neg used, if_neg fun all => used all.1]

end Handler

/-! ## Interrupted code -/

/-- The machine and its locks, each with the stack of the code that holds it. -/
structure LockMachine where
  machine : Machine
  locks : Lock → Option Stack

/-- The executing code acts on the scheduler, takes a lock or releases it; or a timer
interrupt arrives, while thread `i` has `buffers i` file buffers. -/
inductive LockAction
  | code (a : Action)
  | acquire (l : Lock)
  | release (l : Lock)
  | timer (now : Nat) (buffers : Nat → Nat)

/-- Whether a lock is taken. -/
def LockMachine.held (x : LockMachine) (l : Lock) : Bool := (x.locks l).isSome

/-- One action.  Code that finds its lock taken spins, and a handler that spins does not
return. -/
def lockStep (x : LockMachine) : LockAction → LockMachine
  | .code (.timer _) => x
  | .code .timerLocked => x
  | .code a => { x with machine := machineStep x.machine a }
  | .acquire l =>
      if x.held l then x
      else { x with locks := Function.update x.locks l (some x.machine.cpu.stack) }
  | .release l =>
      if x.locks l = some x.machine.cpu.stack then
        { x with locks := Function.update x.locks l none }
      else x
  | .timer now buffers =>
      match timerHandlerLocks x.held buffers x.machine now with
      | .ok m => { x with machine := m }
      | .error _ => x

/-- The handler does not spin on a lock of the code it interrupts. -/
def NeverWaitsOnItself (x : LockMachine) (a : LockAction) : Prop :=
  ∀ now buffers l, a = .timer now buffers →
    timerHandlerLocks x.held buffers x.machine now = .error l →
    x.locks l ≠ some x.machine.cpu.stack

/-- An interrupt of code in `kmalloc` or `kfree` that does not hold the thread lock either
does not reschedule or finds no thread to reap. -/
def sparesAllocator (x : LockMachine) (a : LockAction) : Bool :=
  match a with
  | .timer now _ =>
      x.locks .kmalloc = some x.machine.cpu.stack → x.held .thread = false →
        timerReschedules x.machine.sched now → someReapable x.machine.sched = false
  | _ => true

/-- One interrupt. -/
theorem neverWaits_iff (x : LockMachine) (a : LockAction) :
    NeverWaitsOnItself x a ↔ sparesAllocator x a = true := by
  cases a with
  | timer now buffers =>
      rw [sparesAllocator, decide_eq_true_eq]
      constructor
      · intro never own free reschedules
        by_contra dead
        have taken : x.held .kmalloc = true := by rw [LockMachine.held, own]; rfl
        refine never now buffers .kmalloc rfl ?_ own
        rw [timerHandlerLocks_free free, if_pos ⟨reschedules, taken, by simpa using dead⟩]
      · rintro spares now' buffers' l same spins own
        obtain ⟨rfl, rfl⟩ := LockAction.timer.inj same
        cases lock : x.held .thread with
        | true =>
            rw [timerHandlerLocks_taken lock] at spins
            exact absurd spins (by simp)
        | false =>
            rw [timerHandlerLocks_free lock] at spins
            split at spins
            next all =>
              obtain rfl := Except.error.inj spins
              have none := spares own lock all.1
              rw [none] at all
              exact absurd all.2.2 (by simp)
            · exact absurd spins (by simp)
  | _ => exact ⟨fun _ => rfl, fun _ _ _ _ same => absurd same (by simp)⟩

/-- The machine before its first action, with all locks free. -/
def bootLocks : LockMachine := ⟨bootMachine, fun _ => none⟩

/-- A run never has the handler spin on a lock of the code it interrupts if and only if
no interrupt of the run meets the allocator's lock with a thread to reap. -/
theorem never_waits_along_run (as : List LockAction) :
    AllSteps lockStep NeverWaitsOnItself bootLocks as ↔
      AllSteps lockStep (fun x a => sparesAllocator x a = true) bootLocks as := by
  have keep : ∀ x a, True → sparesAllocator x a = true → True := fun _ _ _ _ => trivial
  exact allSteps_iff_of_invariant keep (fun x a _ => neverWaits_iff x a) trivial

/-- Two threads; the first one kills the second, and seven ticks later it is inside
`kmalloc`, at the end of its quantum. -/
def insideKmalloc : List LockAction :=
  [.code (.create true true), .code (.create true true), .code .yield, .code .schedule,
    .code .switch, .code (.kill 1)] ++
  (List.range 7).map (fun tick => .timer (tick + 1) fun _ => 0) ++ [.acquire .kmalloc]

/-- The handler spins on the lock that the interrupted thread holds. -/
theorem interrupted_allocation_hangs :
    ¬ AllSteps lockStep NeverWaitsOnItself bootLocks (insideKmalloc ++ [.timer 8 fun _ => 0]) := by
  intro never
  have last := ((allSteps_append NeverWaitsOnItself bootLocks insideKmalloc _).1 never).2.1
  exact absurd ((neverWaits_iff _ _).1 last) (by decide +kernel)

end NTux.Sched
