import NTux.Sched.Machine

/-!
# The queues of the scheduler

`QueueInv s l w` says that the ready queue holds the threads `l` and the wake list
the threads `w`, that `rq_count` is the length of `l`, and that every thread on them
exists and is ready, or blocked.  `CurrentFree s l` says that the current thread is
neither queued nor blocked; it fails only between a section that blocks the current
thread and the call of `scheduler()` behind it.

Each section of the scheduler keeps them (`…_queueOk`), and from the sections every
action of the machine does, so they hold along every run.
-/

namespace NTux.Sched

open NTux.Lib

namespace SchedState

variable (s : SchedState) (t : Nat) (f : Thread → Thread)

@[simp] theorem modify_currentThreadId : (s.modify t f).currentThreadId = s.currentThreadId := rfl
@[simp] theorem modify_nextThreadId : (s.modify t f).nextThreadId = s.nextThreadId := rfl
@[simp] theorem modify_rq : (s.modify t f).rq = s.rq := rfl
@[simp] theorem modify_rqCount : (s.modify t f).rqCount = s.rqCount := rfl
@[simp] theorem modify_wakeList : (s.modify t f).wakeList = s.wakeList := rfl

theorem modify_threadList_self : (s.modify t f).threadList t = (s.threadList t).map f :=
  Function.update_self ..

theorem modify_threadList_of_ne {u : Nat} (ne : u ≠ t) :
    (s.modify t f).threadList u = s.threadList u :=
  Function.update_of_ne ne _ _

end SchedState

section Frames

variable (s : SchedState) (t u : Nat) (f : Thread → Thread)

@[simp] theorem rqRemove_threadList : (rqRemove s t).threadList = s.threadList := by
  unfold rqRemove
  split <;> rfl

@[simp] theorem rqRemove_currentThreadId :
    (rqRemove s t).currentThreadId = s.currentThreadId := by
  unfold rqRemove
  split <;> rfl

@[simp] theorem rqRemove_nextThreadId : (rqRemove s t).nextThreadId = s.nextThreadId := by
  unfold rqRemove
  split <;> rfl

@[simp] theorem rqRemove_wakeList : (rqRemove s t).wakeList = s.wakeList := by
  unfold rqRemove
  split <;> rfl

@[simp] theorem rqEnqueue_threadList : (rqEnqueue s t).threadList = s.threadList := by
  unfold rqEnqueue
  split <;> rfl

@[simp] theorem rqEnqueue_currentThreadId :
    (rqEnqueue s t).currentThreadId = s.currentThreadId := by
  unfold rqEnqueue
  split <;> rfl

@[simp] theorem rqEnqueue_nextThreadId : (rqEnqueue s t).nextThreadId = s.nextThreadId := by
  unfold rqEnqueue
  split <;> rfl

@[simp] theorem rqEnqueue_wakeList : (rqEnqueue s t).wakeList = s.wakeList := by
  unfold rqEnqueue
  split <;> rfl

theorem rqRemove_modify : rqRemove (s.modify t f) u = (rqRemove s u).modify t f := by
  unfold rqRemove
  rw [SchedState.modify_rq]
  split <;> rfl

theorem wakeListRemove_rqEnqueue :
    wakeListRemove (rqEnqueue s t) u = rqEnqueue (wakeListRemove s u) t := by
  unfold rqEnqueue
  rw [show (wakeListRemove s u).rq = s.rq from rfl]
  split <;> rfl

end Frames

/-! ## The invariant -/

/-- The queues hold `l` and `w`, and the threads on them are in the right state. -/
structure QueueInv (s : SchedState) (l w : List Nat) : Prop where
  ready : s.rq.Holds l
  count : s.rqCount = l.length
  readyState : ∀ t ∈ l, ∃ th, s.threadList t = some th ∧ th.state = .ready
  waiting : s.wakeList.Holds w
  waitState : ∀ t ∈ w, ∃ th, s.threadList t = some th ∧ th.state = .blocked
  fresh : ∀ t, s.nextThreadId ≤ t → s.threadList t = none
  currentOld : ∀ t, s.currentThreadId = some t → t < s.nextThreadId

/-- The current thread is neither queued nor blocked. -/
def CurrentFree (s : SchedState) (l : List Nat) : Prop :=
  ∀ t, s.currentThreadId = some t →
    t ∉ l ∧ ∀ th, s.threadList t = some th → th.state ≠ .blocked

/-- The queues are well formed, and the current thread is free of them where `free`
says so. -/
def QueueOk (s : SchedState) (free : Prop) : Prop :=
  ∃ l w, QueueInv s l w ∧ (free → CurrentFree s l)

theorem QueueOk.imp {s : SchedState} {free free' : Prop} (ok : QueueOk s free)
    (weaker : free' → free) : QueueOk s free' := by
  obtain ⟨l, w, inv, current⟩ := ok
  exact ⟨l, w, inv, fun h => current (weaker h)⟩

namespace QueueInv

variable {s : SchedState} {l w : List Nat} {t : Nat} {th : Thread} {f : Thread → Thread}

theorem not_ready (inv : QueueInv s l w) (eq : s.threadList t = some th)
    (state : th.state ≠ .ready) : t ∉ l := by
  intro mem
  obtain ⟨th', eq', ready⟩ := inv.readyState t mem
  obtain rfl := Option.some.inj (eq.symm.trans eq')
  exact state ready

theorem not_waiting (inv : QueueInv s l w) (eq : s.threadList t = some th)
    (state : th.state ≠ .blocked) : t ∉ w := by
  intro mem
  obtain ⟨th', eq', blocked⟩ := inv.waitState t mem
  obtain rfl := Option.some.inj (eq.symm.trans eq')
  exact state blocked

theorem lt_next (inv : QueueInv s l w) (eq : s.threadList t = some th) : t < s.nextThreadId := by
  by_contra ge
  rw [inv.fresh t (Nat.le_of_not_lt ge)] at eq
  exact absurd eq (by simp)

/-! ### The queue operations -/

theorem rqRemove (inv : QueueInv s l w) (t : Nat) : QueueInv (rqRemove s t) (l.erase t) w := by
  have flag := inv.ready.flags t
  by_cases mem : t ∈ l
  · have queued : s.rq.queued t = true := flag.2 mem
    refine ⟨?_, ?_, fun u memU => ?_, ?_, ?_, ?_, ?_⟩
    · rw [Sched.rqRemove, if_pos queued]
      exact inv.ready.remove
    · rw [Sched.rqRemove, if_pos queued]
      have length := List.length_erase_of_mem mem
      have pos := List.length_pos_of_mem mem
      simp only [inv.count]
      omega
    · simpa using inv.readyState u (List.mem_of_mem_erase memU)
    · simpa using inv.waiting
    · simpa using inv.waitState
    · simpa using inv.fresh
    · simpa using inv.currentOld
  · have unqueued : ¬ s.rq.queued t = true := fun queued => mem (flag.1 queued)
    rw [Sched.rqRemove, if_neg unqueued, List.erase_of_not_mem mem]
    exact inv

theorem wakeListRemove (inv : QueueInv s l w) (t : Nat) :
    QueueInv (wakeListRemove s t) l (w.erase t) where
  ready := inv.ready
  count := inv.count
  readyState := inv.readyState
  waiting := inv.waiting.remove
  waitState := fun u mem => inv.waitState u (List.mem_of_mem_erase mem)
  fresh := inv.fresh
  currentOld := inv.currentOld

theorem rqEnqueue (inv : QueueInv s l w) (eq : s.threadList t = some th)
    (ready : th.state = .ready) (new : t ∉ l) : QueueInv (rqEnqueue s t) (l ++ [t]) w := by
  have unqueued : ¬ s.rq.queued t = true := fun queued => new ((inv.ready.flags t).1 queued)
  rw [Sched.rqEnqueue, if_neg unqueued]
  refine ⟨inv.ready.add new, ?_, fun u mem => ?_, inv.waiting, inv.waitState, inv.fresh,
    inv.currentOld⟩
  · simp [inv.count]
  · rcases List.mem_append.1 mem with mem | mem
    · exact inv.readyState u mem
    · obtain rfl := List.mem_singleton.1 mem
      exact ⟨th, eq, ready⟩

theorem wakeListAdd (inv : QueueInv s l w) (eq : s.threadList t = some th)
    (blocked : th.state = .blocked) (new : t ∉ w) : QueueInv (wakeListAdd s t) l (w ++ [t]) := by
  refine ⟨inv.ready, inv.count, inv.readyState, inv.waiting.add new, fun u mem => ?_, inv.fresh,
    inv.currentOld⟩
  rcases List.mem_append.1 mem with mem | mem
  · exact inv.waitState u mem
  · obtain rfl := List.mem_singleton.1 mem
    exact ⟨th, eq, blocked⟩

theorem rqDequeue_nil (inv : QueueInv s [] w) : rqDequeue s = none := by
  rw [Sched.rqDequeue, inv.ready.pop_nil, Option.map_none]

theorem rqDequeue (inv : QueueInv s (t :: l) w) :
    ∃ rq, rqDequeue s = some (t, { s with rq := rq, rqCount := s.rqCount - 1 }) ∧
      QueueInv { s with rq := rq, rqCount := s.rqCount - 1 } l w := by
  obtain ⟨rq, eq, holds⟩ := inv.ready.pop
  refine ⟨rq, by rw [Sched.rqDequeue, eq, Option.map_some], holds, ?_, fun u mem => ?_,
    inv.waiting, inv.waitState, inv.fresh, inv.currentOld⟩
  · simp [inv.count]
  · exact inv.readyState u (List.mem_cons_of_mem _ mem)

/-! ### Changes to a thread -/

/-- A change to a thread that respects the queues it is on. -/
theorem modify (inv : QueueInv s l w)
    (keep : ∀ th, s.threadList t = some th →
      (t ∈ l → (f th).state = .ready) ∧ (t ∈ w → (f th).state = .blocked)) :
    QueueInv (s.modify t f) l w := by
  have states : ∀ u (state : ThreadState), (∃ th, s.threadList u = some th ∧ th.state = state) →
      (u = t → ∀ th, s.threadList t = some th → (f th).state = state) →
      ∃ th, (s.modify t f).threadList u = some th ∧ th.state = state := by
    rintro u state ⟨th, eq, stateEq⟩ same
    rcases eq_or_ne u t with rfl | ne
    · exact ⟨f th, by rw [SchedState.modify_threadList_self, eq, Option.map_some], same rfl th eq⟩
    · exact ⟨th, by rw [SchedState.modify_threadList_of_ne _ _ _ ne, eq], stateEq⟩
  refine ⟨inv.ready, inv.count, fun u mem => ?_, inv.waiting, fun u mem => ?_, fun u ge => ?_,
    inv.currentOld⟩
  · refine states u _ (inv.readyState u mem) ?_
    rintro rfl th eq
    exact (keep th eq).1 mem
  · refine states u _ (inv.waitState u mem) ?_
    rintro rfl th eq
    exact (keep th eq).2 mem
  · rcases eq_or_ne u t with rfl | ne
    · rw [SchedState.modify_threadList_self, inv.fresh u ge, Option.map_none]
    · rw [SchedState.modify_threadList_of_ne _ _ _ ne, inv.fresh u ge]

/-- A change to a thread that is on no queue. -/
theorem modify_free (inv : QueueInv s l w) (offReady : t ∉ l) (offWaiting : t ∉ w) :
    QueueInv (s.modify t f) l w :=
  inv.modify fun _ _ => ⟨fun mem => absurd mem offReady, fun mem => absurd mem offWaiting⟩

/-- A change to a thread that leaves its state alone. -/
theorem modify_same (inv : QueueInv s l w) (same : ∀ th, (f th).state = th.state) :
    QueueInv (s.modify t f) l w := by
  refine inv.modify fun th eq => ⟨fun mem => ?_, fun mem => ?_⟩
  · obtain ⟨th', eq', ready⟩ := inv.readyState t mem
    obtain rfl := Option.some.inj (eq.symm.trans eq')
    rw [same, ready]
  · obtain ⟨th', eq', blocked⟩ := inv.waitState t mem
    obtain rfl := Option.some.inj (eq.symm.trans eq')
    rw [same, blocked]

end QueueInv

theorem CurrentFree.modify {s : SchedState} {l : List Nat} {t : Nat} {f : Thread → Thread}
    (free : CurrentFree s l) (same : ∀ th, (f th).state = .blocked → th.state = .blocked) :
    CurrentFree (s.modify t f) l := by
  intro u current
  refine ⟨(free u current).1, fun th eq => ?_⟩
  rcases eq_or_ne u t with rfl | ne
  · rw [SchedState.modify_threadList_self] at eq
    obtain ⟨th', eq', rfl⟩ := Option.map_eq_some_iff.1 eq
    exact fun blocked => (free u current).2 th' eq' (same th' blocked)
  · rw [SchedState.modify_threadList_of_ne _ _ _ ne] at eq
    exact (free u current).2 th eq

/-! ## The sections -/

section Sections

variable {s : SchedState} {free : Prop}

theorem threadInit_queueOk : QueueOk threadInit True :=
  ⟨[], [], ⟨.empty, rfl, by simp, .empty, by simp, fun _ _ => rfl, by simp [threadInit]⟩,
    fun _ => by simp [CurrentFree, threadInit]⟩

theorem threadCreate_queueOk (ok : QueueOk s free) (gotThread gotStack : Bool) :
    QueueOk (threadCreate s gotThread gotStack).2 free := by
  unfold threadCreate
  split
  · exact ok
  split
  · exact ok
  obtain ⟨l, w, inv, current⟩ := ok
  have below : ∀ t, s.nextThreadId + 1 ≤ t → s.nextThreadId ≤ t := fun t ge => by omega
  have older : ∀ t, s.currentThreadId = some t → t < s.nextThreadId + 1 := fun t eq =>
    Nat.lt_succ_of_lt (inv.currentOld t eq)
  cases gotStack with
  | false =>
      exact ⟨l, w, ⟨inv.ready, inv.count, inv.readyState, inv.waiting, inv.waitState,
        fun t ge => inv.fresh t (below t ge), older⟩, current⟩
  | true =>
      -- the id is new, so no queue has it yet
      have unused : ∀ t, ∀ th, s.threadList t = some th → t ≠ s.nextThreadId := fun t th eq =>
        Nat.ne_of_lt (inv.lt_next eq)
      have offReady : s.nextThreadId ∉ l := fun mem => by
        obtain ⟨th, eq, -⟩ := inv.readyState _ mem
        exact unused _ th eq rfl
      have offWaiting : s.nextThreadId ∉ w := fun mem => by
        obtain ⟨th, eq, -⟩ := inv.waitState _ mem
        exact unused _ th eq rfl
      have kept : ∀ t th, s.threadList t = some th → Function.update s.threadList s.nextThreadId
          (some (threadInitCommon s.nextThreadId)) t = some th := fun t th eq => by
        rw [Function.update_of_ne (unused t th eq), eq]
      have made : QueueInv { s with
          nextThreadId := s.nextThreadId + 1
          threadList := Function.update s.threadList s.nextThreadId
            (some (threadInitCommon s.nextThreadId))
          rq := s.rq.reset s.nextThreadId
          wakeList := s.wakeList.reset s.nextThreadId } l w := by
        refine ⟨inv.ready.reset offReady, inv.count, fun t mem => ?_, inv.waiting.reset offWaiting,
          fun t mem => ?_, fun t ge => ?_, older⟩
        · obtain ⟨th, eq, state⟩ := inv.readyState t mem
          exact ⟨th, kept t th eq, state⟩
        · obtain ⟨th, eq, state⟩ := inv.waitState t mem
          exact ⟨th, kept t th eq, state⟩
        · dsimp only at ge ⊢
          rw [Function.update_of_ne (by omega)]
          exact inv.fresh t (below t ge)
      refine ⟨l ++ [s.nextThreadId], w, made.rqEnqueue (Function.update_self ..) rfl offReady,
        fun h t eq => ?_⟩
      simp only [Bool.not_true, Bool.false_eq_true, if_false, rqEnqueue_currentThreadId,
        rqEnqueue_threadList] at eq ⊢
      have ne := Nat.ne_of_lt (inv.currentOld t eq)
      obtain ⟨offT, state⟩ := current h t eq
      rw [Function.update_of_ne ne]
      exact ⟨by simp [offT, ne], state⟩

/-- A thread taken off both queues may change in any way. -/
theorem retire_queueInv {l w : List Nat} (inv : QueueInv s l w) (t : Nat)
    (f : Thread → Thread) :
    QueueInv ((rqRemove (wakeListRemove s t) t).modify t f) (l.erase t) (w.erase t) :=
  ((inv.wakeListRemove t).rqRemove t).modify_free inv.ready.nodup.not_mem_erase
    inv.waiting.nodup.not_mem_erase

theorem threadKill_queueOk (ok : QueueOk s free) (tid : Nat) :
    QueueOk (threadKill s tid).2 free := by
  unfold threadKill
  split
  · exact ok
  split
  · exact ok
  next t eq =>
    obtain ⟨l, w, inv, current⟩ := ok
    have counted : ∀ n, QueueInv { s with blockedCount := n } l w := fun n =>
      ⟨inv.ready, inv.count, inv.readyState, inv.waiting, inv.waitState, inv.fresh,
        inv.currentOld⟩
    have freeAfter : ∀ s' : SchedState, s'.currentThreadId = s.currentThreadId →
        s'.threadList = s.threadList → free →
        CurrentFree ((rqRemove (wakeListRemove s' tid) tid).setState tid .terminated)
          (l.erase tid) := by
      intro s' sameCurrent sameList h
      have before : CurrentFree (rqRemove (wakeListRemove s' tid) tid) (l.erase tid) := by
        intro u eqU
        rw [rqRemove_currentThreadId] at eqU
        rw [rqRemove_threadList]
        obtain ⟨off, state⟩ := current h u (sameCurrent.symm.trans eqU)
        refine ⟨fun mem => off (List.mem_of_mem_erase mem), fun th eqTh => ?_⟩
        exact state th (sameList ▸ eqTh)
      exact before.modify fun th blocked => absurd blocked (by simp)
    split
    · exact ⟨_, _, retire_queueInv (counted _) tid _, freeAfter _ rfl rfl⟩
    · exact ⟨_, _, retire_queueInv inv tid _, freeAfter _ rfl rfl⟩

/-- A thread that is reaped is terminated, so it is on no queue. -/
theorem reapOne_queueInv {l w : List Nat} (inv : QueueInv s l w) (i : Nat) :
    QueueInv (reapOne s i) l w := by
  unfold reapOne
  split
  · exact inv
  next t eq =>
    split
    · exact inv
    next state =>
      split
      · exact inv
      next other =>
        have terminated : t.state = .terminated := not_not.1 state
        have offReady := inv.not_ready eq (by simp [terminated])
        have offWaiting := inv.not_waiting eq (by simp [terminated])
        have removed := inv.rqRemove i
        rw [List.erase_of_not_mem offReady] at removed
        have kept : ∀ u, u ≠ i → Function.update (rqRemove s i).threadList i none u =
            s.threadList u := fun u ne => by
          rw [Function.update_of_ne ne, rqRemove_threadList]
        refine ⟨removed.ready, removed.count, fun u mem => ?_, removed.waiting,
          fun u mem => ?_, fun u ge => ?_, removed.currentOld⟩
        · dsimp only
          rw [kept u fun same => offReady (same ▸ mem)]
          exact inv.readyState u mem
        · dsimp only
          rw [kept u fun same => offWaiting (same ▸ mem)]
          exact inv.waitState u mem
        · rcases eq_or_ne u i with rfl | ne
          · exact Function.update_self ..
          · dsimp only
            rw [kept u ne]
            exact inv.fresh u (by simpa using ge)

@[simp] theorem reapOne_currentThreadId (i : Nat) :
    (reapOne s i).currentThreadId = s.currentThreadId := by
  unfold reapOne
  split
  · rfl
  split
  · rfl
  split
  · rfl
  · exact rqRemove_currentThreadId _ _

/-- Reaping only removes threads, and never the current one. -/
theorem reapOne_threadList {i t : Nat} {th : Thread} (eq : (reapOne s i).threadList t = some th) :
    s.threadList t = some th := by
  unfold reapOne at eq
  split at eq
  · exact eq
  split at eq
  · exact eq
  split at eq
  · exact eq
  · rcases eq_or_ne t i with rfl | ne
    · simp at eq
    · simpa [Function.update_of_ne ne] using eq

/-- Whatever reaping one thread keeps, reaping all of them keeps. -/
theorem threadReapTerminated_induction {P : SchedState → Prop}
    (one : ∀ s i, P s → P (reapOne s i)) (start : P s) : P (threadReapTerminated s) := by
  unfold threadReapTerminated
  generalize List.range maxThreads = is
  induction is generalizing s with
  | nil => exact start
  | cons i is ih => exact ih (one s i start)

theorem threadReapTerminated_queueInv {l w : List Nat} (inv : QueueInv s l w) :
    QueueInv (threadReapTerminated s) l w :=
  threadReapTerminated_induction (P := fun s => QueueInv s l w)
    (fun _ i inv => reapOne_queueInv inv i) inv

/-- Outside a blocking section, exit finds the current thread on no queue. -/
theorem threadExitSection_queueOk (ok : QueueOk s True) :
    QueueOk (threadExitSection s) True := by
  unfold threadExitSection
  split
  · exact ok
  next tid current =>
    split
    · exact ok
    next t eq =>
      obtain ⟨l, w, inv, free⟩ := ok
      obtain ⟨off, state⟩ := free trivial tid current
      have removed := inv.rqRemove tid
      refine ⟨l.erase tid, w, removed.modify_free inv.ready.nodup.not_mem_erase
        (inv.not_waiting eq (state t eq)), fun _ => ?_⟩
      refine CurrentFree.modify (fun u eqU => ?_) fun th blocked => absurd blocked (by simp)
      rw [rqRemove_currentThreadId] at eqU
      rw [rqRemove_threadList]
      obtain ⟨offU, stateU⟩ := free trivial u eqU
      exact ⟨fun mem => offU (List.mem_of_mem_erase mem), stateU⟩

theorem markBlocked_queueOk {l w : List Nat} {tid : Nat} {t : Thread} (inv : QueueInv s l w)
    (eq : s.threadList tid = some t) (state : t.state ≠ .blocked) :
    QueueOk (markBlocked s tid) False := by
  have offWaiting := inv.not_waiting eq state
  have blocked : QueueInv ((rqRemove s tid).setState tid .blocked) (l.erase tid) w :=
    (inv.rqRemove tid).modify_free inv.ready.nodup.not_mem_erase offWaiting
  have counted : QueueInv { rqRemove (s.setState tid .blocked) tid with
      blockedCount := (rqRemove (s.setState tid .blocked) tid).blockedCount + 1 }
      (l.erase tid) w := by
    rw [SchedState.setState, rqRemove_modify]
    exact ⟨blocked.ready, blocked.count, blocked.readyState, blocked.waiting, blocked.waitState,
      blocked.fresh, blocked.currentOld⟩
  have eqT : (rqRemove (s.setState tid .blocked) tid).threadList tid =
      some { t with state := .blocked } := by
    simp [SchedState.setState, rqRemove_modify, SchedState.modify_threadList_self, eq]
  exact ⟨l.erase tid, w ++ [tid], counted.wakeListAdd eqT rfl offWaiting, False.elim⟩

theorem waitTicksSection_queueOk (ok : QueueOk s True) (wake : Nat) :
    QueueOk (waitTicksSection s wake) False := by
  unfold waitTicksSection
  split
  · exact ok.imp False.elim
  next tid current =>
    split
    · exact ok.imp False.elim
    next t eq =>
      obtain ⟨l, w, inv, -⟩ := ok
      have timed : QueueInv (s.modify tid fun t => { t with wakeTick := wake }) l w :=
        inv.modify_same fun _ => rfl
      split
      next state =>
        refine markBlocked_queueOk (t := { t with wakeTick := wake }) timed ?_ state
        rw [SchedState.modify_threadList_self, eq, Option.map_some]
      · exact ⟨l, w, timed, False.elim⟩

theorem networkBlockSection_queueOk (ok : QueueOk s True) (now : Nat) :
    QueueOk (networkBlockSection s now) False := by
  unfold networkBlockSection
  split
  · exact ok.imp False.elim
  next tid current =>
    split
    · exact ok.imp False.elim
    next t eq =>
      obtain ⟨l, w, inv, -⟩ := ok
      split
      next state =>
        have timed : QueueInv (s.modify tid fun t => { t with wakeTick := tickAfter now 1 }) l w :=
          inv.modify_same fun _ => rfl
        refine markBlocked_queueOk (t := { t with wakeTick := tickAfter now 1 }) timed ?_ state
        rw [SchedState.modify_threadList_self, eq, Option.map_some]
      · exact ⟨l, w, inv, False.elim⟩

theorem waitTicksEnd_queueOk {tid : Nat} {t : Thread} (ok : QueueOk s free)
    (eq : s.threadList tid = some t) : QueueOk (waitTicksEnd s tid) True := by
  obtain ⟨l, w, inv, -⟩ := ok
  have retired := retire_queueInv inv tid fun t => { t with state := .running, wakeTick := 0 }
  rw [← rqRemove_modify] at retired
  refine ⟨l.erase tid, w.erase tid, ⟨retired.ready, retired.count, retired.readyState,
    retired.waiting, retired.waitState, retired.fresh, ?_⟩, fun _ u current => ?_⟩
  · rintro u ⟨⟩
    simp only [waitTicksEnd, rqRemove_nextThreadId, SchedState.modify_nextThreadId]
    exact inv.lt_next eq
  · obtain rfl : tid = u := Option.some.inj current
    refine ⟨inv.ready.nodup.not_mem_erase, fun th eqTh => ?_⟩
    simp only [waitTicksEnd, rqRemove_threadList, SchedState.modify_threadList_self] at eqTh
    obtain ⟨t', -, rfl⟩ := Option.map_eq_some_iff.1 eqTh
    simp

theorem timerWakeOne_queueOk (ok : QueueOk s free) (now t : Nat) :
    QueueOk (timerWakeOne s now t) free := by
  unfold timerWakeOne
  split
  · exact ok
  next th eq =>
    split
    next due =>
      obtain ⟨l, w, inv, current⟩ := ok
      have offReady := inv.not_ready eq (by simp [due.1])
      have woken : QueueInv ((wakeListRemove s t).modify t
          fun th => { th with state := .ready, wakeTick := 0 }) l (w.erase t) :=
        (inv.wakeListRemove t).modify_free offReady inv.waiting.nodup.not_mem_erase
      have eqT : ((wakeListRemove s t).modify t
          fun th => { th with state := .ready, wakeTick := 0 }).threadList t =
          some { th with state := .ready, wakeTick := 0 } := by
        rw [SchedState.modify_threadList_self, show (wakeListRemove s t).threadList t = some th
          from eq, Option.map_some]
      have queued := woken.rqEnqueue eqT rfl offReady
      have free' : free → CurrentFree (wakeListRemove (rqEnqueue (s.modify t
          fun th => { th with state := .ready, wakeTick := 0 }) t) t) (l ++ [t]) := by
        intro h u eqU
        rw [wakeListRemove_rqEnqueue, rqEnqueue_currentThreadId] at eqU
        rw [wakeListRemove_rqEnqueue, rqEnqueue_threadList]
        obtain ⟨off, state⟩ := current h u eqU
        have ne : u ≠ t := by
          rintro rfl
          exact state th eq due.1
        refine ⟨by simp [off, ne], fun th' eqTh => ?_⟩
        exact state th' ((SchedState.modify_threadList_of_ne _ _ _ ne).symm.trans eqTh)
      rw [show (wakeListRemove s t).modify t (fun th => { th with state := .ready, wakeTick := 0 }) =
        wakeListRemove (s.modify t fun th => { th with state := .ready, wakeTick := 0 }) t from rfl,
        ← wakeListRemove_rqEnqueue] at queued
      dsimp only
      split
      · exact ⟨_, _, ⟨queued.ready, queued.count, queued.readyState, queued.waiting,
          queued.waitState, queued.fresh, queued.currentOld⟩, free'⟩
      · exact ⟨_, _, queued, free'⟩
    · exact ok

/-- Whatever waking one thread keeps, the wake loop keeps. -/
theorem timerWake_induction {P : SchedState → Prop} {now : Nat}
    (one : ∀ s t, P s → P (timerWakeOne s now t)) (start : P s) : P (timerWake s now) := by
  have loop : ∀ fuel (s : SchedState) (t : Option Nat), P s → P (timerWakeLoop now fuel s t) := by
    intro fuel
    induction fuel with
    | zero => exact fun s t start => start
    | succ fuel ih =>
        intro s t start
        cases t with
        | none => exact start
        | some t => exact ih _ _ (one s t start)
  exact loop _ _ _ start

theorem timerWake_queueOk (ok : QueueOk s free) (now : Nat) : QueueOk (timerWake s now) free :=
  timerWake_induction (P := fun s => QueueOk s free)
    (fun _ t ok => timerWakeOne_queueOk ok now t) ok

/-- A current thread that runs goes to the end of the queue. -/
theorem requeueOld_running {l w : List Nat} {tid : Nat} {t : Thread} (inv : QueueInv s l w)
    (current : s.currentThreadId = some tid) (eq : s.threadList tid = some t)
    (running : t.state = .running) : QueueInv (requeueOld s) (l ++ [tid]) w := by
  have offReady := inv.not_ready eq (by simp [running])
  have offWaiting := inv.not_waiting eq (by simp [running])
  have ready : QueueInv (s.setState tid .ready) l w := inv.modify_free offReady offWaiting
  have eqT : (s.setState tid .ready).threadList tid = some { t with state := .ready } := by
    rw [SchedState.setState, SchedState.modify_threadList_self, eq, Option.map_some]
  unfold requeueOld
  simp only [current, eq]
  rw [if_pos running]
  exact ready.rqEnqueue eqT rfl offReady

theorem requeueOld_queueInv {l w : List Nat} (inv : QueueInv s l w) :
    ∃ l', l <+: l' ∧ QueueInv (requeueOld s) l' w := by
  by_cases runs : ∃ tid t, s.currentThreadId = some tid ∧ s.threadList tid = some t ∧
      t.state = .running
  · obtain ⟨tid, t, current, eq, running⟩ := runs
    exact ⟨l ++ [tid], List.prefix_append l [tid], requeueOld_running inv current eq running⟩
  · have same : requeueOld s = s := by
      unfold requeueOld
      split
      · rfl
      next tid current =>
        split
        next t eq => exact if_neg fun running => runs ⟨tid, t, current, eq, running⟩
        · rfl
    rw [same]
    exact ⟨l, List.prefix_rfl, inv⟩

theorem requeueOld_currentThreadId : (requeueOld s).currentThreadId = s.currentThreadId := by
  unfold requeueOld
  split
  · rfl
  next current =>
    split
    · split
      · exact rqEnqueue_currentThreadId _ _
      · rfl
    · rfl

/-- A queued thread that becomes the current one and runs. -/
theorem resume_queueOk {l w : List Nat} {next : Nat} {th : Thread} {f : Thread → Thread}
    (inv : QueueInv s l w) (off : next ∉ l) (eq : s.threadList next = some th)
    (ready : th.state = .ready) (current : s.currentThreadId = some next)
    (runs : ∀ th, (f th).state = .running) : QueueOk (s.modify next f) True := by
  have offWaiting := inv.not_waiting eq (by simp [ready])
  refine ⟨l, w, inv.modify_free off offWaiting, fun _ u eqU => ?_⟩
  obtain rfl : next = u := Option.some.inj (current.symm.trans eqU)
  refine ⟨off, fun th' eqTh => ?_⟩
  rw [SchedState.modify_threadList_self] at eqTh
  obtain ⟨th', -, rfl⟩ := Option.map_eq_some_iff.1 eqTh
  simp [runs]

/-- After `schedule_core` the current thread is running and on no queue. -/
theorem scheduleCore_queueOk (ok : QueueOk s free) : QueueOk (scheduleCore s).sched True := by
  obtain ⟨l₀, w, inv₀, -⟩ := ok
  obtain ⟨l, -, inv⟩ := requeueOld_queueInv (threadReapTerminated_queueInv inv₀)
  have current := requeueOld_currentThreadId (s := threadReapTerminated s)
  unfold scheduleCore
  dsimp only
  generalize requeueOld (threadReapTerminated s) = s' at inv current ⊢
  cases l with
  | nil =>
      rw [inv.rqDequeue_nil]
      exact ⟨[], w, ⟨inv.ready, inv.count, inv.readyState, inv.waiting, inv.waitState, inv.fresh,
        by simp⟩, fun _ => by simp [CurrentFree]⟩
  | cons next l =>
      obtain ⟨rq, eq, rest⟩ := inv.rqDequeue
      have off : next ∉ l := (List.nodup_cons.1 inv.ready.nodup).1
      obtain ⟨th, eqN, ready⟩ := inv.readyState next List.mem_cons_self
      rw [eq]
      dsimp only
      split
      next same => exact resume_queueOk rest off eqN ready (current.trans same) fun _ => rfl
      next other =>
        have moved : QueueInv { s' with
            rq := rq
            rqCount := s'.rqCount - 1
            currentThreadId := some next } l w :=
          ⟨rest.ready, rest.count, rest.readyState, rest.waiting, rest.waitState, rest.fresh,
            fun u eqU => Option.some.inj eqU ▸ inv.lt_next eqN⟩
        exact resume_queueOk moved off eqN ready rfl fun _ => rfl

end Sections

end NTux.Sched
