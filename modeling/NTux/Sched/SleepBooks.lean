import NTux.Sched.Retired

/-!
# The books on sleeping threads

A thread that sleeps is recorded four times: its state is `BLOCKED`, it is on the wake
list, it has a wake tick, and `g_thread_blocked_count` counts it.  `SleepBooks` says
that the four agree.  Two things break the books:

* `INT80_WAIT_TICKS` ends the wait of a thread that is still blocked, because the tick
  came while the lock was held and the timer left the thread alone: it takes the
  thread off the list and makes it running, but does not count it out;
* the wake tick of a wait is zero in 64 bits, which is no wake tick.

And a thread that has killed itself and blocks, or whose wait ends, comes back to
life.  `keepsBooks` excludes the three; along every other run the books agree and what
is terminated stays so (`sleep_books_along_run`).
-/

namespace NTux.Sched

open NTux.Lib

/-- A thread in state `BLOCKED`. -/
def isBlocked (s : SchedState) (t : Nat) : Bool :=
  (s.threadList t).any fun th => th.state = .blocked

/-- A blocked thread with a pending wake tick. -/
def isSleeping (s : SchedState) (t : Nat) : Bool :=
  (s.threadList t).any fun th => th.state = .blocked ∧ 0 < th.wakeTick

/-- The blocked threads, by their ids. -/
def blockedThreads (s : SchedState) : List Nat := (List.range s.nextThreadId).filter (isBlocked s)

/-- The count is the number of blocked threads, and the wake list is a doubly linked list
of exactly those with a pending wake tick. -/
structure SleepBooks (s : SchedState) : Prop where
  count : s.blockedCount = (blockedThreads s).length
  blocked : ∀ t, t ∈ blockedThreads s ↔ isBlocked s t = true
  wakeList : ∃ w, Dll s.wakeList.next s.wakeList.prev s.wakeList.head s.wakeList.tail w ∧
    w.Nodup ∧ ∀ t, t ∈ w ↔ isSleeping s t = true

/-- The current thread, if there is one, can block until the tick `wake` and be woken. -/
def canBlock (s : SchedState) (wake : Nat) : Bool :=
  (oldThread s).all fun t => 0 < wake ∧ !isTerminated s t

/-- Whether the end of a wait finds its thread woken. -/
def waitEnds (th : Thread) (now wake : Nat) : Bool :=
  (th.state = .blocked → now < wake) ∧ th.state ≠ .terminated

/-- The action neither blocks a thread for good or after its end, nor ends the wait of a
thread that is still blocked or over. -/
def keepsBooks (m : Machine) (a : Action) : Bool :=
  match a, m.cpu.phase with
  | .waitTicks now ticks, .running => ticks = 0 ∨ canBlock m.sched (tickAfter now ticks)
  | .networkBlock now, .running => canBlock m.sched (tickAfter now 1)
  | .proceed now, .returned (.wait (some tid) wake) =>
      (m.sched.threadList tid).all fun th => waitEnds th now wake
  | _, _ => true

/-! ## The invariant -/

/-- The threads flagged on the wake list are the blocked ones, all with a pending wake
tick, and the count counts them. -/
structure SleepInv (s : SchedState) : Prop where
  listed : ∀ t, s.wakeList.queued t = isBlocked s t
  pending : ∀ t, isBlocked s t = true → isSleeping s t = true
  count : s.blockedCount = (blockedThreads s).length

section Blocked

variable {s s' : SchedState} {t u : Nat} {th : Thread} {f : Thread → Thread}

theorem isBlocked_modify : isBlocked (s.modify t f) u =
    if u = t then (s.threadList t).any (fun th => (f th).state = .blocked) else isBlocked s u := by
  unfold isBlocked
  split
  next same => rw [same, SchedState.modify_threadList_self, Option.any_map]
  next ne => rw [SchedState.modify_threadList_of_ne _ _ _ ne]

theorem isSleeping_modify_of_ne (ne : u ≠ t) :
    isSleeping (s.modify t f) u = isSleeping s u := by
  unfold isSleeping
  rw [SchedState.modify_threadList_of_ne _ _ _ ne]

theorem isBlocked_eq (eq : s.threadList t = some th) :
    isBlocked s t = decide (th.state = .blocked) := by
  rw [isBlocked, eq, Option.any_some]

theorem isBlocked_of_list (list : s'.threadList = s.threadList) : isBlocked s' = isBlocked s := by
  funext t
  rw [isBlocked, isBlocked, list]

theorem isSleeping_of_list (list : s'.threadList = s.threadList) :
    isSleeping s' = isSleeping s := by
  funext t
  rw [isSleeping, isSleeping, list]

theorem nodup_blockedThreads (s : SchedState) : (blockedThreads s).Nodup :=
  List.nodup_range.filter _

theorem mem_blockedThreads (old : t < s.nextThreadId) :
    t ∈ blockedThreads s ↔ isBlocked s t = true := by
  rw [blockedThreads, List.mem_filter, List.mem_range]
  exact and_iff_right old

/-- One blocked thread less. -/
theorem blockedThreads_erase (next : s'.nextThreadId = s.nextThreadId)
    (blocked : ∀ u, isBlocked s' u = (decide (u ≠ t) && isBlocked s u)) :
    blockedThreads s' = (blockedThreads s).erase t := by
  rw [(nodup_blockedThreads s).erase_eq_filter, blockedThreads, blockedThreads, next,
    List.filter_filter]
  refine List.filter_congr fun u _ => ?_
  rw [blocked u]
  simp [bne, BEq.beq]

end Blocked

namespace SleepInv

variable {s s' : SchedState} {t : Nat} {th : Thread} {f : Thread → Thread}

/-- Nothing changes for the blocked threads. -/
theorem of_same (inv : SleepInv s) (queued : s'.wakeList.queued = s.wakeList.queued)
    (blocked : isBlocked s' = isBlocked s)
    (sleeping : ∀ t, isSleeping s t = true → isSleeping s' t = true)
    (next : s'.nextThreadId = s.nextThreadId) (count : s'.blockedCount = s.blockedCount) :
    SleepInv s' := by
  refine ⟨fun t => ?_, fun t eq => ?_, ?_⟩
  · rw [queued, blocked]
    exact inv.listed t
  · rw [blocked] at eq
    exact sleeping t (inv.pending t eq)
  · rw [count, inv.count, blockedThreads, blockedThreads, blocked, next]

/-- Only the table, the wake list, the next id and the count matter. -/
theorem congr (inv : SleepInv s) (queued : s'.wakeList.queued = s.wakeList.queued)
    (list : s'.threadList = s.threadList) (next : s'.nextThreadId = s.nextThreadId)
    (count : s'.blockedCount = s.blockedCount) : SleepInv s' :=
  inv.of_same queued (isBlocked_of_list list)
    (fun t eq => by rwa [isSleeping_of_list list]) next count

/-- A change to a thread that is blocked neither before nor after. -/
theorem modify (inv : SleepInv s)
    (off : ∀ th, s.threadList t = some th → th.state ≠ .blocked ∧ (f th).state ≠ .blocked) :
    SleepInv (s.modify t f) := by
  have awake : isBlocked s t = false ∧
      (s.threadList t).any (fun th => decide ((f th).state = .blocked)) = false := by
    cases eq : s.threadList t with
    | none => simp [isBlocked, eq]
    | some th =>
        obtain ⟨before, after⟩ := off th eq
        simp [isBlocked, eq, before, after]
  have same : isBlocked (s.modify t f) = isBlocked s := by
    funext u
    rw [isBlocked_modify]
    split
    next eq => rw [eq, awake.1, awake.2]
    next => rfl
  refine inv.of_same rfl same (fun u eq => ?_) rfl rfl
  rcases eq_or_ne u t with rfl | ne
  · have blocked : isBlocked s u = true := by
      obtain ⟨th, eqTh, state⟩ := Option.any_eq_true _ _ |>.1 eq
      rw [isBlocked_eq eqTh]
      exact decide_eq_true (of_decide_eq_true state).1
    rw [awake.1] at blocked
    exact absurd blocked (by simp)
  · rwa [isSleeping_modify_of_ne ne]

/-- A change to a thread that leaves its state and its wake tick alone. -/
theorem modify_same (inv : SleepInv s)
    (same : ∀ th, (f th).state = th.state ∧ (f th).wakeTick = th.wakeTick) :
    SleepInv (s.modify t f) := by
  have state : (fun th => decide ((f th).state = .blocked)) =
      fun th => decide (th.state = .blocked) := by
    funext th
    rw [(same th).1]
  have both : (fun th => decide ((f th).state = .blocked ∧ 0 < (f th).wakeTick)) =
      fun th => decide (th.state = .blocked ∧ 0 < th.wakeTick) := by
    funext th
    rw [(same th).1, (same th).2]
  refine inv.of_same rfl (funext fun u => ?_) (fun u eq => ?_) rfl rfl
  · rw [isBlocked_modify, state]
    split
    next eq => rw [eq, isBlocked]
    next => rfl
  · rcases eq_or_ne u t with rfl | ne
    · have mapped : isSleeping (s.modify u f) u =
          (s.threadList u).any fun th => decide ((f th).state = .blocked ∧ 0 < (f th).wakeTick) := by
        rw [isSleeping, SchedState.modify_threadList_self, Option.any_map]
      rw [mapped, both]
      exact eq
    · rwa [isSleeping_modify_of_ne ne]

/-- A blocked thread leaves the list and the count, and is not blocked any more. -/
theorem unblock (inv : SleepInv s) (old : t < s.nextThreadId) (was : isBlocked s t = true)
    (queued : ∀ u, s'.wakeList.queued u = (decide (u ≠ t) && s.wakeList.queued u))
    (list : s'.threadList = (s.modify t f).threadList) (leaves : ∀ th, (f th).state ≠ .blocked)
    (next : s'.nextThreadId = s.nextThreadId) (count : s'.blockedCount = s.blockedCount - 1) :
    SleepInv s' := by
  have blocked : ∀ u, isBlocked s' u = (decide (u ≠ t) && isBlocked s u) := by
    intro u
    rw [isBlocked_of_list list, isBlocked_modify]
    split
    next eq =>
      have none : (s.threadList t).any (fun th => decide ((f th).state = .blocked)) = false := by
        rw [Option.any_eq_false]
        intro th _
        simpa using leaves th
      simp [eq, none]
    next ne => simp [ne]
  refine ⟨fun u => ?_, fun u eq => ?_, ?_⟩
  · rw [queued, blocked, inv.listed]
  · rw [blocked, Bool.and_eq_true] at eq
    rw [isSleeping_of_list list, isSleeping_modify_of_ne (of_decide_eq_true eq.1)]
    exact inv.pending u eq.2
  · rw [blockedThreads_erase next blocked,
      List.length_erase_of_mem ((mem_blockedThreads old).2 was), count, inv.count]

/-- A thread blocks: it enters the list and the count. -/
theorem block (inv : SleepInv s) (old : t < s.nextThreadId) (awake : isBlocked s t = false)
    (queued : ∀ u, s'.wakeList.queued u = (decide (u = t) || s.wakeList.queued u))
    (list : s'.threadList = (s.modify t f).threadList)
    (sleeps : isSleeping s' t = true)
    (next : s'.nextThreadId = s.nextThreadId) (count : s'.blockedCount = s.blockedCount + 1) :
    SleepInv s' := by
  have now : isBlocked s' t = true := by
    obtain ⟨th, eqTh, state⟩ := Option.any_eq_true _ _ |>.1 sleeps
    rw [isBlocked_eq eqTh]
    exact decide_eq_true (of_decide_eq_true state).1
  have others : ∀ u, u ≠ t → isBlocked s' u = isBlocked s u := by
    intro u ne
    rw [isBlocked_of_list list, isBlocked_modify, if_neg ne]
  have before : ∀ u, isBlocked s u = (decide (u ≠ t) && isBlocked s' u) := by
    intro u
    rcases eq_or_ne u t with rfl | ne
    · simp [awake]
    · simp [ne, others u ne]
  refine ⟨fun u => ?_, fun u eq => ?_, ?_⟩
  · rw [queued, inv.listed]
    rcases eq_or_ne u t with rfl | ne
    · simp [now]
    · simp [ne, others u ne]
  · rcases eq_or_ne u t with rfl | ne
    · exact sleeps
    · rw [isSleeping_of_list list, isSleeping_modify_of_ne ne]
      exact inv.pending u ((others u ne).symm.trans eq)
  · have mem : t ∈ blockedThreads s' := (mem_blockedThreads (next ▸ old)).2 now
    have length := List.length_erase_of_mem mem
    have pos := List.length_pos_of_mem mem
    rw [count, inv.count, blockedThreads_erase next.symm before]
    omega

end SleepInv

/-! ## The sections -/

section Sections

variable {s : SchedState} {l w : List Nat}

@[simp] theorem rqRemove_blockedCount (t : Nat) : (rqRemove s t).blockedCount = s.blockedCount := by
  unfold rqRemove
  split <;> rfl

@[simp] theorem rqEnqueue_blockedCount (t : Nat) :
    (rqEnqueue s t).blockedCount = s.blockedCount := by
  unfold rqEnqueue
  split <;> rfl

theorem SleepInv.rqRemove (inv : SleepInv s) (t : Nat) : SleepInv (rqRemove s t) :=
  inv.congr (by rw [rqRemove_wakeList]) (rqRemove_threadList s t) (rqRemove_nextThreadId s t)
    (rqRemove_blockedCount t)

theorem SleepInv.rqEnqueue (inv : SleepInv s) (t : Nat) : SleepInv (rqEnqueue s t) :=
  inv.congr (by rw [rqEnqueue_wakeList]) (rqEnqueue_threadList s t) (rqEnqueue_nextThreadId s t)
    (rqEnqueue_blockedCount t)

/-- Taking a thread that is not blocked off the wake list does nothing. -/
theorem SleepInv.wakeListRemove {t : Nat} (inv : SleepInv s) (awake : isBlocked s t = false) :
    SleepInv (wakeListRemove s t) := by
  refine inv.congr (funext fun u => ?_) rfl rfl rfl
  rw [Sched.wakeListRemove, IntrusiveQueue.remove_queued]
  rcases eq_or_ne u t with rfl | ne
  · simp [inv.listed, awake]
  · simp [ne]

theorem threadInit_sleepInv : SleepInv threadInit :=
  ⟨fun _ => rfl, fun _ eq => absurd eq (by simp [isBlocked, threadInit]), rfl⟩

theorem threadCreate_sleepInv (inv : SleepInv s) (queues : QueueInv s l w)
    (gotThread gotStack : Bool) : SleepInv (threadCreate s gotThread gotStack).2 := by
  have fresh : s.threadList s.nextThreadId = none := queues.fresh _ (Nat.le_refl _)
  have unblocked : isBlocked s s.nextThreadId = false := by rw [isBlocked, fresh, Option.any_none]
  have more : ∀ p : Nat → Bool, p s.nextThreadId = false →
      (List.range (s.nextThreadId + 1)).filter p = (List.range s.nextThreadId).filter p := by
    intro p off
    simp [List.range_succ, List.filter_append, off]
  unfold threadCreate
  split
  · exact inv
  split
  · exact inv
  dsimp only
  split
  · refine ⟨inv.listed, inv.pending, inv.count.trans ?_⟩
    exact congrArg List.length (more (isBlocked s) unblocked).symm
  · set s' : SchedState := { s with
      nextThreadId := s.nextThreadId + 1
      threadList := Function.update s.threadList s.nextThreadId
        (some (threadInitCommon s.nextThreadId))
      rq := s.rq.reset s.nextThreadId
      wakeList := s.wakeList.reset s.nextThreadId }
    have others : ∀ t, t ≠ s.nextThreadId → s'.threadList t = s.threadList t := fun t ne =>
      Function.update_of_ne ne _ _
    have same : isBlocked s' = isBlocked s := by
      funext t
      rcases eq_or_ne t s.nextThreadId with rfl | ne
      · rw [unblocked]
        simp [isBlocked, s', threadInitCommon]
      · rw [isBlocked, isBlocked, others t ne]
    refine SleepInv.rqEnqueue ⟨fun t => ?_, fun t eq => ?_, ?_⟩ _
    · rw [same, ← inv.listed, IntrusiveQueue.reset_queued]
      rcases eq_or_ne t s.nextThreadId with rfl | ne
      · simp [inv.listed, unblocked]
      · simp [ne]
    · rw [same] at eq
      have ne : t ≠ s.nextThreadId := by
        rintro rfl
        rw [unblocked] at eq
        exact absurd eq (by simp)
      rw [isSleeping, others t ne]
      exact inv.pending t eq
    · show s.blockedCount = _
      rw [inv.count, blockedThreads, blockedThreads, same, more _ unblocked]

theorem threadKill_sleepInv (inv : SleepInv s) (queues : QueueInv s l w) (tid : Nat) :
    SleepInv (threadKill s tid).2 := by
  unfold threadKill
  split
  · exact inv
  split
  · exact inv
  next t eq =>
    have old : tid < s.nextThreadId := queues.lt_next eq
    dsimp only
    by_cases state : t.state = .blocked
    · have was : isBlocked s tid = true := by rw [isBlocked_eq eq, state]; rfl
      have pos : 0 < s.blockedCount := by
        rw [inv.count]
        exact List.length_pos_of_mem ((mem_blockedThreads old).2 was)
      rw [if_pos ⟨state, pos⟩, SchedState.setState, ← rqRemove_modify]
      have ended : SleepInv ((wakeListRemove { s with blockedCount := s.blockedCount - 1 }
          tid).setState tid .terminated) :=
        inv.unblock (f := fun th => { th with state := .terminated }) old was
          (fun u => IntrusiveQueue.remove_queued ..) rfl (fun _ => by simp) rfl rfl
      exact ended.rqRemove tid
    · rw [if_neg fun both => state both.1]
      have awake : isBlocked s tid = false := by rw [isBlocked_eq eq]; simp [state]
      refine ((inv.wakeListRemove awake).rqRemove tid).modify fun th eq' => ⟨?_, by simp⟩
      rw [rqRemove_threadList] at eq'
      obtain rfl := Option.some.inj (eq.symm.trans eq')
      exact state

theorem threadExitSection_sleepInv (inv : SleepInv s) (free : CurrentFree s l) :
    SleepInv (threadExitSection s) := by
  unfold threadExitSection
  split
  · exact inv
  next tid current =>
    split
    · exact inv
    · refine (inv.rqRemove tid).modify fun th eq => ⟨?_, by simp⟩
      rw [rqRemove_threadList] at eq
      exact (free tid current).2 th eq

/-- A terminated thread may go. -/
theorem SleepInv.erase {i : Nat} {th : Thread} (inv : SleepInv s) (eq : s.threadList i = some th)
    (dead : th.state = .terminated) :
    SleepInv { s with threadList := Function.update s.threadList i none } := by
  have unblocked : isBlocked s i = false := by rw [isBlocked_eq eq, dead]; rfl
  set s' : SchedState := { s with threadList := Function.update s.threadList i none }
  have others : ∀ u, u ≠ i → s'.threadList u = s.threadList u := fun u ne =>
    Function.update_of_ne ne _ _
  refine inv.of_same rfl (funext fun u => ?_) (fun u sleeps => ?_) rfl rfl
  · rcases eq_or_ne u i with rfl | ne
    · rw [unblocked]
      simp [isBlocked, s']
    · rw [isBlocked, isBlocked, others u ne]
  · have ne : u ≠ i := by
      rintro rfl
      rw [isSleeping, eq, Option.any_some, dead] at sleeps
      exact absurd sleeps (by simp)
    rw [isSleeping, others u ne]
    exact sleeps

theorem reapOne_sleepInv (inv : SleepInv s) (i : Nat) : SleepInv (reapOne s i) := by
  unfold reapOne
  split
  · exact inv
  next t eq =>
    split
    · exact inv
    next state =>
      split
      · exact inv
      · have there : (rqRemove s i).threadList i = some t := by rw [rqRemove_threadList, eq]
        exact (inv.rqRemove i).erase there (not_not.1 state)

theorem threadReapTerminated_sleepInv (inv : SleepInv s) : SleepInv (threadReapTerminated s) :=
  threadReapTerminated_induction (P := SleepInv) (fun _ i inv => reapOne_sleepInv inv i) inv

theorem requeueOld_sleepInv (inv : SleepInv s) : SleepInv (requeueOld s) := by
  unfold requeueOld
  split
  · exact inv
  next tid _ =>
    split
    next t eq =>
      split
      next running =>
        refine SleepInv.rqEnqueue (inv.modify fun th eq' => ⟨?_, by simp⟩) tid
        obtain rfl := Option.some.inj (eq.symm.trans eq')
        simp [running]
      · exact inv
    · exact inv

theorem scheduleCore_sleepInv {free : Prop} (inv : SleepInv s) (ok : QueueOk s free) :
    SleepInv (scheduleCore s).sched := by
  obtain ⟨l₀, w, queues₀, -⟩ := ok
  obtain ⟨l, -, queues⟩ := requeueOld_queueInv (threadReapTerminated_queueInv queues₀)
  have before := requeueOld_sleepInv (threadReapTerminated_sleepInv inv)
  unfold scheduleCore
  dsimp only
  generalize requeueOld (threadReapTerminated s) = s' at queues before ⊢
  cases l with
  | nil =>
      rw [queues.rqDequeue_nil]
      exact before.congr rfl rfl rfl rfl
  | cons next l =>
      obtain ⟨rq, eq, -⟩ := queues.rqDequeue
      obtain ⟨th, eqN, ready⟩ := queues.readyState next List.mem_cons_self
      have popped : SleepInv { s' with rq := rq, rqCount := s'.rqCount - 1 } :=
        before.congr rfl rfl rfl rfl
      -- the thread that is picked was ready and runs
      have resumed : ∀ f : Thread → Thread, (∀ th, (f th).state = .running) →
          SleepInv (SchedState.modify { s' with rq := rq, rqCount := s'.rqCount - 1 } next f) := by
        intro f runs
        refine popped.modify fun th' eq' => ⟨?_, by simp [runs]⟩
        obtain rfl := Option.some.inj (eqN.symm.trans eq')
        simp [ready]
      rw [eq]
      dsimp only
      split
      · exact resumed _ fun _ => rfl
      · exact (resumed _ fun _ => rfl).congr rfl rfl rfl rfl

theorem timerWakeOne_sleepInv {free : Prop} (inv : SleepInv s) (ok : QueueOk s free) (now t : Nat) :
    SleepInv (timerWakeOne s now t) := by
  obtain ⟨l, w, queues, -⟩ := ok
  unfold timerWakeOne
  split
  · exact inv
  next th eq =>
    split
    next due =>
      have old : t < s.nextThreadId := queues.lt_next eq
      have was : isBlocked s t = true := by rw [isBlocked_eq eq, due.1]; rfl
      have pos : 0 < s.blockedCount := by
        rw [inv.count]
        exact List.length_pos_of_mem ((mem_blockedThreads old).2 was)
      dsimp only
      rw [wakeListRemove_rqEnqueue, rqEnqueue_blockedCount]
      split
      · refine inv.unblock (f := fun th => { th with state := .ready, wakeTick := 0 }) old was
          (fun u => ?_) (rqEnqueue_threadList ..) (fun _ => by simp) (rqEnqueue_nextThreadId ..) rfl
        dsimp only
        rw [rqEnqueue_wakeList]
        exact IntrusiveQueue.remove_queued ..
      next none => exact absurd pos none
    · exact inv

theorem timerWake_sleepInv {free : Prop} (inv : SleepInv s) (ok : QueueOk s free) (now : Nat) :
    SleepInv (timerWake s now) :=
  (timerWake_induction (P := fun s => SleepInv s ∧ QueueOk s free)
    (fun _ t both => ⟨timerWakeOne_sleepInv both.1 both.2 now t,
      timerWakeOne_queueOk both.2 now t⟩) ⟨inv, ok⟩).1

theorem markBlocked_sleepInv {tid : Nat} {th : Thread} (inv : SleepInv s)
    (eq : s.threadList tid = some th) (old : tid < s.nextThreadId) (awake : th.state ≠ .blocked)
    (wake : 0 < th.wakeTick) : SleepInv (markBlocked s tid) := by
  have unblocked : isBlocked s tid = false := by rw [isBlocked_eq eq]; simp [awake]
  have list : (markBlocked s tid).threadList = (s.setState tid .blocked).threadList :=
    rqRemove_threadList ..
  refine inv.block (f := fun th => { th with state := .blocked }) old unblocked (fun u => ?_) list
    ?_ (rqRemove_nextThreadId ..) ?_
  · show ((rqRemove (s.setState tid .blocked) tid).wakeList.add tid).queued u = _
    rw [rqRemove_wakeList, IntrusiveQueue.add_queued]
    rfl
  · rw [isSleeping, list, SchedState.setState, SchedState.modify_threadList_self, eq]
    simp [wake]
  · show (rqRemove (s.setState tid .blocked) tid).blockedCount + 1 = _
    rw [rqRemove_blockedCount]
    rfl

/-- The wake tick of a thread that is not blocked is free. -/
theorem SleepInv.setWakeTick {tid wake : Nat} {th : Thread} (inv : SleepInv s)
    (eq : s.threadList tid = some th) (awake : th.state ≠ .blocked) :
    SleepInv (s.modify tid fun t => { t with wakeTick := wake }) := by
  refine inv.modify fun th' eq' => ?_
  obtain rfl := Option.some.inj (eq.symm.trans eq')
  exact ⟨awake, awake⟩

theorem oldThread_of_current {t : Nat} {th : Thread} (current : s.currentThreadId = some t)
    (eq : s.threadList t = some th) : oldThread s = some t := by
  rw [oldThread, current, Option.filter_some, eq]
  rfl

theorem canBlock_current {t wake : Nat} {th : Thread} (can : canBlock s wake = true)
    (current : s.currentThreadId = some t) (eq : s.threadList t = some th) :
    0 < wake ∧ th.state ≠ .terminated := by
  rw [canBlock, oldThread_of_current current eq, Option.all_some] at can
  obtain ⟨pos, live⟩ := of_decide_eq_true can
  refine ⟨pos, fun dead => ?_⟩
  simp [isTerminated, eq, dead] at live

theorem waitTicksSection_sleepInv {wake : Nat} (inv : SleepInv s) (queues : QueueInv s l w)
    (free : CurrentFree s l) (can : canBlock s wake = true) :
    SleepInv (waitTicksSection s wake) := by
  unfold waitTicksSection
  split
  · exact inv
  next tid current =>
    split
    · exact inv
    next t eq =>
      have awake := (free tid current).2 t eq
      have timed : SleepInv (s.modify tid fun t => { t with wakeTick := wake }) :=
        inv.setWakeTick eq awake
      have eqT : (s.modify tid fun t => { t with wakeTick := wake }).threadList tid =
          some { t with wakeTick := wake } := by
        rw [SchedState.modify_threadList_self, eq, Option.map_some]
      dsimp only
      rw [if_pos awake]
      exact markBlocked_sleepInv timed eqT (queues.lt_next eq) awake
        (canBlock_current can current eq).1

theorem networkBlockSection_sleepInv {now : Nat} (inv : SleepInv s) (queues : QueueInv s l w)
    (free : CurrentFree s l) (can : canBlock s (tickAfter now 1) = true) :
    SleepInv (networkBlockSection s now) := by
  unfold networkBlockSection
  split
  · exact inv
  next tid current =>
    split
    · exact inv
    next t eq =>
      have awake := (free tid current).2 t eq
      have timed : SleepInv (s.modify tid fun t => { t with wakeTick := tickAfter now 1 }) :=
        inv.setWakeTick eq awake
      have eqT : (s.modify tid fun t => { t with wakeTick := tickAfter now 1 }).threadList tid =
          some { t with wakeTick := tickAfter now 1 } := by
        rw [SchedState.modify_threadList_self, eq, Option.map_some]
      rw [if_pos awake]
      exact markBlocked_sleepInv timed eqT (queues.lt_next eq) awake
        (canBlock_current can current eq).1

/-- The end of a wait finds its thread woken, so there is nothing to count out. -/
theorem waitTicksEnd_sleepInv {tid : Nat} {th : Thread} (inv : SleepInv s)
    (eq : s.threadList tid = some th) (awake : th.state ≠ .blocked) :
    SleepInv (waitTicksEnd s tid) := by
  have unblocked : isBlocked s tid = false := by rw [isBlocked_eq eq]; simp [awake]
  have running : SleepInv ((wakeListRemove s tid).modify tid
      fun t => { t with state := .running, wakeTick := 0 }) := by
    refine (inv.wakeListRemove unblocked).modify fun th' eq' => ⟨?_, by simp⟩
    obtain rfl := Option.some.inj (eq.symm.trans eq')
    exact awake
  exact (running.rqRemove tid).congr rfl rfl rfl rfl

end Sections

/-! ## The actions -/

/-- The queues are well formed and the books agree. -/
structure BooksOk (m : Machine) : Prop where
  queues : MachineQueueOk m
  sleep : SleepInv m.sched

section Actions

variable {m : Machine}

theorem switchContext_sleepInv (inv : SleepInv m.sched) (old : Option Nat) (next : Nat)
    (after : Phase) : SleepInv (switchContext m old next after).sched := by
  have stored : SleepInv (storeContext m old after) := by
    cases old with
    | none => exact inv
    | some o => exact inv.modify_same fun _ => ⟨rfl, rfl⟩
  unfold switchContext
  dsimp only
  split <;> exact stored

theorem schedulerCall_sleepInv (ok : BooksOk m) (k : Resume) :
    SleepInv (schedulerCall m k).sched := by
  have scheduled := scheduleCore_sleepInv ok.sleep ok.queues
  unfold schedulerCall
  generalize scheduleCore m.sched = r at scheduled ⊢
  dsimp only
  split <;> exact scheduled

theorem schedulerFromIrq_sleepInv (ok : BooksOk m) : SleepInv (schedulerFromIrq m).sched := by
  have scheduled := scheduleCore_sleepInv ok.sleep ok.queues
  unfold schedulerFromIrq
  generalize scheduleCore m.sched = r at scheduled ⊢
  dsimp only
  split
  · exact switchContext_sleepInv (m := ⟨_, m.cpu⟩) scheduled _ _ _
  · exact scheduled

theorem timerHandler_sleepInv (ok : BooksOk m) (now : Nat) :
    SleepInv (timerHandler m now).sched := by
  have woken := timerWake_sleepInv ok.sleep ok.queues now
  have queues := timerWake_queueOk ok.queues now
  unfold timerHandler
  dsimp only
  split
  · exact woken
  next tid _ =>
    have counted : SleepInv (countTick (timerWake m.sched now) tid) :=
      woken.modify_same fun _ => ⟨rfl, rfl⟩
    split
    · exact schedulerFromIrq_sleepInv (m := ⟨_, m.cpu⟩)
        ⟨queues.modify_same tid fun _ => rfl, counted⟩
    · exact counted

theorem timerHandlerLocked_sleepInv (inv : SleepInv m.sched) :
    SleepInv (timerHandlerLocked m).sched := by
  unfold timerHandlerLocked
  split
  · exact inv
  · exact inv.modify_same fun _ => ⟨rfl, rfl⟩

/-- A wait that ends does so for a thread that is neither blocked nor over. -/
theorem waitEnds_awake {th : Thread} {now wake : Nat} (ends : waitEnds th now wake = true)
    (ended : ¬ (th.state = .blocked ∧ now < wake)) : th.state ≠ .blocked := by
  intro blocked
  exact ended ⟨blocked, (of_decide_eq_true ends).1 blocked⟩

theorem afterScheduler_sleepInv {k : Resume} {now : Nat} (inv : SleepInv m.sched)
    (ends : ∀ tid wake th, k = .wait (some tid) wake → m.sched.threadList tid = some th →
      waitEnds th now wake = true) : SleepInv (afterScheduler m k now).sched := by
  cases k with
  | network => exact inv
  | yieldLoop => exact inv
  | exitLoop => exact inv
  | wait tid wake =>
      unfold afterScheduler
      cases tid with
      | none => exact inv
      | some tid =>
          cases eq : m.sched.threadList tid with
          | none => simpa only [eq] using inv
          | some t =>
              simp only [eq]
              split
              · exact inv
              next ended =>
                exact waitTicksEnd_sleepInv inv eq (waitEnds_awake (ends tid wake t rfl eq) ended)

theorem runningStep_sleepInv {a : Action} (ok : BooksOk m) (phase : m.cpu.phase = .running)
    (cond : keepsBooks m a = true) : SleepInv (runningStep m a).sched := by
  obtain ⟨l, w, queues, free⟩ := ok.queues
  have current : CurrentFree m.sched l := free (by rw [phase]; rfl)
  cases a with
  | create gotThread gotStack => exact threadCreate_sleepInv ok.sleep queues gotThread gotStack
  | kill tid => exact threadKill_sleepInv ok.sleep queues tid
  | waitTicks now ticks =>
      simp only [keepsBooks, phase, decide_eq_true_eq] at cond
      unfold runningStep
      dsimp only
      split
      · exact ok.sleep
      next some => exact waitTicksSection_sleepInv ok.sleep queues current (cond.resolve_left some)
  | networkBlock now =>
      simp only [keepsBooks, phase] at cond
      exact networkBlockSection_sleepInv ok.sleep queues current cond
  | exit => exact threadExitSection_sleepInv ok.sleep current
  | fault =>
      unfold runningStep
      dsimp only
      split
      · exact threadExitSection_sleepInv ok.sleep current
      · exact ok.sleep
  | _ => exact ok.sleep

/-- Every action that meets the condition keeps the books. -/
theorem machineStep_booksOk {a : Action} (ok : BooksOk m) (cond : keepsBooks m a = true) :
    BooksOk (machineStep m a) := by
  refine ⟨machineStep_queueOk ok.queues a, ?_⟩
  unfold machineStep
  split
  next now => exact timerHandler_sleepInv ok now
  next => exact timerHandlerLocked_sleepInv ok.sleep
  next =>
    split
    next phase _ _ => exact runningStep_sleepInv ok phase cond
    next k phase _ _ => exact schedulerCall_sleepInv ok k
    next old next k phase _ _ => exact switchContext_sleepInv ok.sleep old next (.returned k)
    next k now phase _ _ =>
      refine afterScheduler_sleepInv ok.sleep fun tid wake th same eq => ?_
      subst same
      simpa only [keepsBooks, phase, eq, Option.all_some] using cond
    next => exact ok.sleep

/-- Every action that meets the condition leaves what is over alone. -/
theorem machineStep_keepsRetired {a : Action} (ok : BooksOk m) (cond : keepsBooks m a = true)
    {t : Nat} (retired : Retired m.sched t) : Retired (machineStep m a).sched t := by
  have retires : Retires (m.sched.nextThreadId ≤ ·) m.sched (machineStep m a).sched := by
    refine machineStep_retires ok.queues (fun _ _ _ _ => Nat.le_refl _) ?_ ?_
    · intro tid th phase blocks current eq dead
      refine absurd dead ?_
      cases a with
      | waitTicks now ticks =>
          simp only [keepsBooks, phase, decide_eq_true_eq] at cond
          have can := cond.resolve_left (of_decide_eq_true blocks)
          exact (canBlock_current can current eq).2
      | networkBlock now =>
          simp only [keepsBooks, phase] at cond
          exact (canBlock_current cond current eq).2
      | _ => exact absurd blocks (by simp [Action.blocks])
    · rintro tid wake now th phase rfl eq dead
      refine absurd dead ?_
      simp only [keepsBooks, phase, eq, Option.all_some] at cond
      exact (of_decide_eq_true cond).2
  obtain ⟨old, ended⟩ := retired
  exact ⟨Nat.lt_of_lt_of_le old retires.next, retires.ended t (Nat.not_le_of_lt old) ended⟩

theorem BooksOk.books (ok : BooksOk m) : SleepBooks m.sched := by
  obtain ⟨l, w, queues, -⟩ := ok.queues
  have known : ∀ t, t ∈ blockedThreads m.sched ↔ isBlocked m.sched t = true := by
    intro t
    refine ⟨fun mem => (List.mem_filter.1 mem).2, fun blocked => ?_⟩
    obtain ⟨th, eq, -⟩ := Option.any_eq_true _ _ |>.1 blocked
    exact (mem_blockedThreads (queues.lt_next eq)).2 blocked
  refine ⟨ok.sleep.count, known, w, queues.waiting.links, queues.waiting.nodup, fun t => ?_⟩
  rw [← queues.waiting.flags t, ok.sleep.listed]
  refine ⟨ok.sleep.pending t, fun sleeps => ?_⟩
  obtain ⟨th, eq, state⟩ := Option.any_eq_true _ _ |>.1 sleeps
  rw [isBlocked_eq eq]
  exact decide_eq_true (of_decide_eq_true state).1

end Actions

theorem bootMachine_booksOk : BooksOk bootMachine := ⟨bootMachine_queueOk, threadInit_sleepInv⟩

/-- Along a run whose actions all meet the condition, the books agree at every point, and
a thread that is over at some point is over from there on. -/
theorem sleep_books_along_run (as : List Action)
    (cond : AllSteps machineStep (fun m a => keepsBooks m a = true) bootMachine as) :
    ∀ before after, as = before ++ after →
      SleepBooks (run machineStep bootMachine before).sched ∧
        ∀ t, Retired (run machineStep bootMachine before).sched t →
          Retired (run machineStep bootMachine as).sched t := by
  rintro before after rfl
  have keep : ∀ m a, BooksOk m → keepsBooks m a = true → BooksOk (machineStep m a) :=
    fun _ _ => machineStep_booksOk
  obtain ⟨first, second⟩ := (allSteps_append _ bootMachine before after).1 cond
  have ok := run_invariant keep bootMachine_booksOk first
  refine ⟨ok.books, fun t retired => ?_⟩
  rw [run_append]
  have stays : ∀ m a, (BooksOk m ∧ Retired m.sched t) → keepsBooks m a = true →
      BooksOk (machineStep m a) ∧ Retired (machineStep m a).sched t :=
    fun m a both cond => ⟨keep m a both.1 cond, machineStep_keepsRetired both.1 cond both.2⟩
  exact (run_invariant stays ⟨ok, retired⟩ second).2

/-- A thread that runs alone. -/
def runAlone : List Action := [.create true true, .yield, .schedule, .switch]

/-- It waits for one tick, which the timer wakes it at. -/
def sleepAlone : List Action :=
  runAlone ++ [.waitTicks 0 1, .schedule, .proceed 0, .timer 1, .proceed 1, .exit]

/-- The condition holds where a thread sleeps alone, is woken by the timer and exits. -/
theorem sleep_books_sleepAlone :
    SleepBooks (run machineStep bootMachine sleepAlone).sched :=
  (sleep_books_along_run sleepAlone (by decide +kernel) sleepAlone [] (List.append_nil _).symm).1

/-- It waits for one tick, which comes while the lock is held. -/
def lateTick : List Action := runAlone ++ [.waitTicks 0 1, .schedule, .timerLocked, .proceed 1]

/-- The sum of the tick and the time to wait is zero in 64 bits. -/
def zeroTick : List Action := runAlone ++ [.waitTicks 1 (2 ^ 64 - 1)]

/-- It kills itself and waits. -/
def killedSleeper : List Action := runAlone ++ [.kill 0, .waitTicks 0 1, .schedule, .timer 1]

/-- The count stays behind, the wake list holds a thread that nothing will wake, and a
terminated thread is ready again. -/
theorem sleep_books_broken :
    ¬ SleepBooks (run machineStep bootMachine lateTick).sched ∧
      ¬ SleepBooks (run machineStep bootMachine zeroTick).sched ∧
      isTerminated (run machineStep bootMachine (runAlone ++ [.kill 0])).sched 0 = true ∧
      ((run machineStep bootMachine killedSleeper).sched.threadList 0).any
        (fun th => th.state = .ready) = true := by
  refine ⟨fun books => ?_, fun books => ?_, by decide +kernel, by decide +kernel⟩
  · have count := books.count
    exact absurd count (by decide +kernel)
  · obtain ⟨w, links, -, sleeping⟩ := books.wakeList
    have head : (run machineStep bootMachine zeroTick).sched.wakeList.head = some 0 := by
      decide +kernel
    cases w with
    | nil => exact absurd (links.forward.head_eq.symm.trans head) (by simp)
    | cons t w =>
        obtain rfl : t = 0 := Option.some.inj (links.forward.head_eq.symm.trans head)
        exact absurd ((sleeping 0).1 List.mem_cons_self) (by decide +kernel)

end NTux.Sched
