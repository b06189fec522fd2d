import NTux.Sched.ReadyQueue

/-!
# The slots of the thread table

A slot of the table is freed when its thread is reaped, but an id is never given out
twice: `thread_create` counts `next_thread_id` up, also when the memory for the stack is
missing, and refuses once it has reached `MAX_THREADS`.  So a thread can be created just
as long as that has not happened (`slots_recycled_iff`), however few threads there are.
-/

namespace NTux.Sched

open NTux.Lib

/-- The number of threads that exist. -/
def existing (s : SchedState) : Nat :=
  (List.range maxThreads).countP fun t => (s.threadList t).isSome

/-- What is expected of `thread_create`: an id it returns belongs to no other thread, and
with memory for the thread and its stack there is one while fewer than `MAX_THREADS`
threads exist. -/
def CreatesThread (m : Machine) (a : Action) : Prop :=
  ∀ gotThread gotStack, a = .create gotThread gotStack → m.cpu.phase = .running →
    (0 ≤ (threadCreate m.sched gotThread gotStack).1 →
      m.sched.threadList (threadCreate m.sched gotThread gotStack).1.toNat = none) ∧
    (gotThread = true → gotStack = true → existing m.sched < maxThreads →
      0 ≤ (threadCreate m.sched gotThread gotStack).1)

/-- A thread that there is memory and room for is created while ids are left. -/
def IdsLeft (m : Machine) (a : Action) : Prop :=
  a = .create true true → m.cpu.phase = .running → existing m.sched < maxThreads →
    m.sched.nextThreadId < maxThreads

/-- An id that is returned is the next one. -/
theorem threadCreate_id {s : SchedState} {gotThread gotStack : Bool}
    (made : 0 ≤ (threadCreate s gotThread gotStack).1) :
    s.nextThreadId < maxThreads ∧ (threadCreate s gotThread gotStack).1 = s.nextThreadId := by
  unfold threadCreate at made ⊢
  split at made
  · exact absurd made (show ¬ (0 : Int) ≤ -1 by decide)
  next left =>
    split at made
    · exact absurd made (show ¬ (0 : Int) ≤ -1 by decide)
    next thread =>
      dsimp only at made
      split at made
      · exact absurd made (show ¬ (0 : Int) ≤ -1 by decide)
      next stack =>
        rw [if_neg left, if_neg thread]
        dsimp only
        rw [if_neg stack]
        exact ⟨Nat.not_le.1 left, rfl⟩

/-- With ids and memory left there is one. -/
theorem threadCreate_made {s : SchedState} (left : s.nextThreadId < maxThreads) :
    (threadCreate s true true).1 = s.nextThreadId := by
  unfold threadCreate
  rw [if_neg (Nat.not_le.2 left)]
  rfl

theorem createsThread_iff {m : Machine} (ok : MachineQueueOk m) (a : Action) :
    CreatesThread m a ↔ IdsLeft m a := by
  constructor
  · rintro creates rfl running room
    exact (threadCreate_id ((creates true true rfl running).2 rfl rfl room)).1
  · rintro left gotThread gotStack rfl running
    constructor
    · intro made
      obtain ⟨-, id⟩ := threadCreate_id made
      obtain ⟨l, w, inv, -⟩ := ok
      rw [id, Int.toNat_natCast]
      exact inv.fresh _ (Nat.le_refl _)
    · rintro rfl rfl room
      rw [threadCreate_made (left rfl running room)]
      exact Int.natCast_nonneg _

/-- Every `thread_create` of a run does what is expected just when each of those that
should succeed comes while ids are left. -/
theorem slots_recycled_iff (as : List Action) :
    AllSteps machineStep CreatesThread bootMachine as ↔
      AllSteps machineStep IdsLeft bootMachine as :=
  allSteps_iff_of_invariant (fun _ a ok _ => machineStep_queueOk ok a)
    (fun _ a ok => createsThread_iff ok a) bootMachine_queueOk

/-! ## Ids used up -/

/-- The machine without threads, `n` ids being used up. -/
def usedUp (n : Nat) : Machine := ⟨{ threadInit with nextThreadId := n }, ⟨.boot, .running⟩⟩

theorem usedUp_create {n : Nat} (lt : n < maxThreads) :
    machineStep (usedUp n) (.create true false) = usedUp (n + 1) := by
  have left : ¬ maxThreads ≤ (usedUp n).sched.nextThreadId := Nat.not_le.2 lt
  show { usedUp n with sched := (threadCreate (usedUp n).sched true false).2 } = _
  unfold threadCreate
  rw [if_neg left]
  rfl

/-- Creations that fail for want of a stack leave no thread and use up an id each. -/
theorem failed_creates (n : Nat) (le : n ≤ maxThreads) :
    run machineStep bootMachine (List.replicate n (.create true false)) = usedUp n := by
  induction n with
  | zero => rfl
  | succ n ih =>
      rw [List.replicate_succ', run_append, ih (by omega), run_cons, run_nil, usedUp_create le]

/-- After 1024 of them no thread exists, and none can be created. -/
theorem slots_not_recycled :
    ¬ AllSteps machineStep CreatesThread bootMachine
      (List.replicate 1024 (.create true false) ++ [.create true true]) := by
  rw [allSteps_append, failed_creates 1024 (by decide)]
  rintro ⟨-, creates, -⟩
  have empty : existing (usedUp 1024).sched = 0 := List.countP_eq_zero.2 fun t _ => by
    simp [usedUp, threadInit]
  have made := (creates true true rfl rfl).2 rfl rfl (by rw [empty]; decide)
  exact absurd (threadCreate_id made).1 (by decide)

end NTux.Sched
