import Mathlib.Data.Nat.ModEq
import Mathlib.Tactic.Common
import NTux.Drivers.Nvme
import NTux.Lib.RingBuffer
import NTux.Lib.Runs

/-!
# Runs of the NVMe driver

The two ends of the completion queue stay consistent in every run (`Rings`): the entries between
head and tail have the phase of their round, and the others that of the round before.

A call that takes its own completion leaves the queue empty (`Idle`).  As long as every call
does, each one returns the result of its own command, and a page is given back when the device
has nothing left to do.  After a call that has run out of looks the completion of its command is
posted all the same; it stays at the head, since only an entry with the number that is waited
for is taken, and no later call gets past it (`nvmePoll_stuck`).
-/

namespace NTux.Drivers

open NTux.Lib NTux.Lib.RingBuffer

/-- The phase of the round of the entry number `k`. -/
def phaseOf (depth k : Nat) : Nat := 1 - k / depth % 2

/-- After `h` entries taken and `p` posted. -/
structure Rings (s : NvmeSys) (h p : Nat) : Prop where
  depth : 2 ≤ s.depth
  le : h ≤ p
  lt : p < h + s.depth
  head : s.cqHead = h % s.depth
  headPhase : s.cqPhase = phaseOf s.depth h
  tail : s.cqTail = p % s.depth
  tailPhase : s.tailPhase = phaseOf s.depth p
  slots : ∀ k, p ≤ k → k < p + s.depth → (s.cq (k % s.depth)).status % 2 = 1 - phaseOf s.depth k

/-- Head, tail and phases are consistent. -/
def Consistent (s : NvmeSys) : Prop := ∃ h p, Rings s h p

/-- A call returns 0 only for its own command, completed with a zero status, and it returns the
result of its command if the completion has been posted. -/
def CallRight (s : NvmeSys) (r : Int × NvmeSys) : Prop :=
  (r.1 = 0 → ∃ status, (s.submitted, status) ∈ r.2.completed ∧ statusCode status = 0 ∧
    statusCodeType status = 0) ∧
  ∀ status, (s.submitted, status) ∈ r.2.completed →
    r.1 = if statusCode status = 0 ∧ statusCodeType status = 0 then 0 else -2

/-- So do the calls for the commands of a transfer. -/
def CallsRight (schedules : Nat → Schedule) : Nat → List NvmeCmd → NvmeSys → Prop
  | _, [], _ => True
  | k, cmd :: rest, s =>
      CallRight s (nvmeSubmitAndWait s cmd (schedules k)) ∧
        ((nvmeSubmitAndWait s cmd (schedules k)).1 = 0 →
          CallsRight schedules (k + 1) rest (nvmeSubmitAndWait s cmd (schedules k)).2)

/-- What happens on a queue: the device posts completions between the calls, a command goes to
the other queue of the controller, or a function is called. -/
inductive NvmeOp
  | device (statuses : List Nat)
  | other
  | submit (cmd : NvmeCmd) (sch : Schedule)
  | rw (ns : NvmeNs) (write : Bool) (page lba512 count : Nat) (schedules : Nat → Schedule)

/-- The state afterwards. -/
def nvmeStep (s : NvmeSys) : NvmeOp → NvmeSys
  | .device statuses => devicePosts statuses s
  | .other => { s with nextCid := (s.nextCid + 1) % 65536 }
  | .submit cmd sch => (nvmeSubmitAndWait s cmd sch).2
  | .rw ns write page lba512 count schedules =>
      (nvmeRwInternal s ns write page lba512 count schedules).2.2

/-- The calls are right, and no page is given back that the device may still use. -/
def OpRight (s : NvmeSys) : NvmeOp → Prop
  | .device _ => True
  | .other => True
  | .submit cmd sch => CallRight s (nvmeSubmitAndWait s cmd sch)
  | .rw ns write page lba512 count schedules =>
      CallsRight schedules 0 (rwCommands ns write page lba512 count) s ∧
        ∀ freed, (nvmeRwInternal s ns write page lba512 count schedules).2.1 = some freed →
          ∀ p ∈ (nvmeRwInternal s ns write page lba512 count schedules).2.2.pending,
            p.cmd.prp1 ≠ freed

/-- A run: every state is consistent, and everything that happens is right. -/
def RunRight : NvmeSys → List NvmeOp → Prop
  | s, [] => Consistent s
  | s, op :: ops => Consistent s ∧ OpRight s op ∧ RunRight (nvmeStep s op) ops

/-- The device posts a completion before the last look, and no status has a zero code with
another type. -/
def Fine (sch : Schedule) : Prop :=
  (∃ i < nvmeTimeoutSpins, sch i ≠ []) ∧
    ∀ i, ∀ status ∈ sch i, statusCode status = 0 → statusCodeType status = 0

/-- So it is for all calls. -/
def FineOp : NvmeOp → Prop
  | .device _ => True
  | .other => True
  | .submit _ sch => Fine sch
  | .rw _ _ _ _ _ schedules => ∀ k, Fine (schedules k)

variable {s s' : NvmeSys} {h p : Nat} {sch : Schedule} {cid : Nat}

/-! ## The rings -/

theorem phaseOf_le (depth k : Nat) : phaseOf depth k ≤ 1 := Nat.sub_le _ _

theorem phaseOf_succ (depth k : Nat) :
    phaseOf depth (k + 1) =
      if (k + 1) % depth = 0 then 1 - phaseOf depth k else phaseOf depth k := by
  unfold phaseOf
  rw [Nat.succ_div]
  simp only [Nat.dvd_iff_mod_eq_zero]
  split <;> omega

theorem phaseOf_add {depth : Nat} (pos : 0 < depth) (k : Nat) :
    phaseOf depth (k + depth) = 1 - phaseOf depth k := by
  unfold phaseOf
  rw [Nat.add_div_right k pos]
  omega

theorem rings_init {depth : Nat} (two : 2 ≤ depth) : Rings (nvmeInit depth) 0 0 where
  depth := two
  le := Nat.le_refl 0
  lt := by
    show 0 < 0 + depth
    omega
  head := (Nat.zero_mod _).symm
  headPhase := by
    show 1 = phaseOf depth 0
    rw [phaseOf, Nat.zero_div]
  tail := (Nat.zero_mod _).symm
  tailPhase := by
    show 1 = phaseOf depth 0
    rw [phaseOf, Nat.zero_div]
  slots k _ lt := by
    show 0 % 2 = 1 - phaseOf depth k
    rw [phaseOf, Nat.div_eq_of_lt (by rwa [Nat.zero_add] at lt)]

/-- The device after it has posted a completion. -/
def posted (s : NvmeSys) (q : Pending) (rest : List Pending) (status : Nat) : NvmeSys :=
  { s with
    pending := rest
    cq := Function.update s.cq s.cqTail ⟨q.cmd.cid, (2 * status + s.tailPhase) % 65536⟩
    cqTail := (s.cqTail + 1) % s.depth
    tailPhase := if (s.cqTail + 1) % s.depth = 0 then 1 - s.tailPhase else s.tailPhase
    completed := s.completed ++ [(q.number, status)] }

theorem devicePost_cases (status : Nat) (s : NvmeSys) : devicePost status s = s ∨
    ∃ q rest, s.pending = q :: rest ∧ (s.cqTail + 1) % s.depth ≠ s.cqHead ∧
      devicePost status s = posted s q rest status := by
  unfold devicePost
  split
  · exact .inl rfl
  next q rest waiting =>
    split
    · exact .inl rfl
    next room => exact .inr ⟨q, rest, waiting, room, rfl⟩

theorem Rings.posted (rings : Rings s h p) (room : (s.cqTail + 1) % s.depth ≠ s.cqHead)
    (q : Pending) (rest : List Pending) (status : Nat) :
    Rings (posted s q rest status) h (p + 1) where
  depth := rings.depth
  le := Nat.le_succ_of_le rings.le
  lt := by
    show p + 1 < h + s.depth
    have lt := rings.lt
    have notFull : p + 1 ≠ h + s.depth := by
      intro full
      refine room ?_
      rw [rings.tail, rings.head, Nat.mod_add_mod, full, Nat.add_mod_right]
    omega
  head := rings.head
  headPhase := rings.headPhase
  tail := by
    show (s.cqTail + 1) % s.depth = _
    rw [rings.tail, Nat.mod_add_mod]
    rfl
  tailPhase := by
    show (if (s.cqTail + 1) % s.depth = 0 then _ else _) = phaseOf s.depth (p + 1)
    rw [rings.tail, rings.tailPhase, Nat.mod_add_mod, phaseOf_succ]
  slots k from_ below := by
    have pos : 0 < s.depth := Nat.lt_of_lt_of_le (by decide) rings.depth
    show (Function.update s.cq s.cqTail _ (k % s.depth)).status % 2 = 1 - phaseOf s.depth k
    rw [rings.tail]
    have below' : k < p + 1 + s.depth := below
    rcases Nat.lt_or_ge k (p + s.depth) with old | new
    · have ne : k % s.depth ≠ p % s.depth := by
        have apart := place_ne (h := p) (i := 0) (n := k - p) (by omega) (by omega : _ < s.depth)
        rw [Nat.add_zero, show p + (k - p) = k by omega] at apart
        exact Ne.symm apart
      rw [Function.update_of_ne ne]
      exact rings.slots k (by omega) old
    · -- the entry that has been posted, one round later
      obtain rfl : k = p + s.depth := by omega
      have le := phaseOf_le s.depth p
      rw [Nat.add_mod_right, Function.update_self, phaseOf_add pos, rings.tailPhase]
      dsimp only
      omega

theorem Rings.devicePost (rings : Rings s h p) (status : Nat) :
    ∃ p', Rings (devicePost status s) h p' := by
  rcases devicePost_cases status s with same | ⟨q, rest, -, room, eq⟩
  · rw [same]
    exact ⟨p, rings⟩
  · rw [eq]
    exact ⟨p + 1, rings.posted room q rest status⟩

theorem Rings.devicePosts (rings : Rings s h p) (statuses : List Nat) :
    ∃ p', Rings (devicePosts statuses s) h p' := by
  induction statuses generalizing s p with
  | nil => exact ⟨p, rings⟩
  | cons status rest ih =>
      obtain ⟨p', rings'⟩ := rings.devicePost status
      exact ih rings'

/-- An entry with the phase of the head has been posted. -/
theorem Rings.posted_of_phase (rings : Rings s h p)
    (phase : (s.cq s.cqHead).status % 2 = s.cqPhase) : h < p := by
  refine Nat.lt_of_le_of_ne rings.le fun same => ?_
  subst same
  have pos : 0 < s.depth := Nat.lt_of_lt_of_le (by decide) rings.depth
  have slot := rings.slots h (Nat.le_refl h) (by omega)
  have le := phaseOf_le s.depth h
  rw [← rings.head, phase, rings.headPhase] at slot
  omega

theorem Rings.consume (rings : Rings s h p) (lt : h < p) : Rings (consume s) (h + 1) p where
  depth := rings.depth
  le := lt
  lt := by
    show p < h + 1 + s.depth
    have lt := rings.lt
    omega
  head := by
    show (s.cqHead + 1) % s.depth = _
    rw [rings.head, Nat.mod_add_mod]
    rfl
  headPhase := by
    show (if (s.cqHead + 1) % s.depth = 0 then _ else _) = phaseOf s.depth (h + 1)
    rw [rings.head, rings.headPhase, Nat.mod_add_mod, phaseOf_succ]
  tail := rings.tail
  tailPhase := rings.tailPhase
  slots := rings.slots

/-- The rings do not depend on the submission queue. -/
theorem Rings.submit (rings : Rings s h p) (cmd : NvmeCmd) : Rings (submit s cmd) h p :=
  ⟨rings.depth, rings.le, rings.lt, rings.head, rings.headPhase, rings.tail, rings.tailPhase,
    rings.slots⟩

/-- Nor on the numbers the other queue takes. -/
theorem Rings.other (rings : Rings s h p) : Rings (nvmeStep s .other) h p :=
  ⟨rings.depth, rings.le, rings.lt, rings.head, rings.headPhase, rings.tail, rings.tailPhase,
    rings.slots⟩

theorem Rings.poll (rings : Rings s h p) (sch : Schedule) (cid n i : Nat) :
    Consistent (nvmePoll sch cid n i s).2 := by
  induction n generalizing s h p i with
  | zero => exact ⟨h, p, rings⟩
  | succ n ih =>
      obtain ⟨p', rings'⟩ := rings.devicePosts (sch i)
      unfold nvmePoll
      dsimp only
      split
      · exact ih rings' (i + 1)
      next taken =>
        rw [not_or, not_not, not_not] at taken
        exact ⟨h + 1, p', rings'.consume (rings'.posted_of_phase taken.1)⟩

theorem Consistent.call (consistent : Consistent s) (cmd : NvmeCmd) (sch : Schedule) :
    Consistent (nvmeSubmitAndWait s cmd sch).2 := by
  obtain ⟨h, p, rings⟩ := consistent
  unfold nvmeSubmitAndWait
  split
  · exact ⟨h, p, rings⟩
  · exact (rings.submit cmd).poll sch _ _ _

theorem Consistent.rwLoop (consistent : Consistent s) (schedules : Nat → Schedule) (k : Nat)
    (cmds : List NvmeCmd) : Consistent (rwLoop schedules k cmds s).2 := by
  induction cmds generalizing s k with
  | nil => exact consistent
  | cons cmd rest ih =>
      have next := consistent.call cmd (schedules k)
      unfold Drivers.rwLoop
      dsimp only
      split
      · exact next
      · exact ih next (k + 1)

/-- The state after a transfer is that before, or that after its calls. -/
theorem nvmeRwInternal_state (s : NvmeSys) (ns : NvmeNs) (write : Bool) (page lba512 count : Nat)
    (schedules : Nat → Schedule) :
    (nvmeRwInternal s ns write page lba512 count schedules).2.2 = s ∨
      (nvmeRwInternal s ns write page lba512 count schedules).2.2 =
        (rwLoop schedules 0 (rwCommands ns write page lba512 count) s).2 := by
  unfold nvmeRwInternal
  dsimp only
  split
  · exact .inl rfl
  · split
    · exact .inl rfl
    · split
      · exact .inl rfl
      · split
        · exact .inl rfl
        · split
          · exact .inl rfl
          · exact .inr rfl

/-- **Head, tail and phases stay consistent**, whatever happens. -/
theorem Consistent.step (consistent : Consistent s) (op : NvmeOp) : Consistent (nvmeStep s op) := by
  cases op with
  | device statuses =>
      obtain ⟨h, p, rings⟩ := consistent
      obtain ⟨p', rings'⟩ := rings.devicePosts statuses
      exact ⟨h, p', rings'⟩
  | other =>
      obtain ⟨h, p, rings⟩ := consistent
      exact ⟨h, p, rings.other⟩
  | submit cmd sch => exact consistent.call cmd sch
  | rw ns write page lba512 count schedules =>
      show Consistent (nvmeRwInternal s ns write page lba512 count schedules).2.2
      rcases nvmeRwInternal_state s ns write page lba512 count schedules with same | loop
      · rw [same]
        exact consistent
      · rw [loop]
        exact consistent.rwLoop schedules 0 _

/-! ## Calls that take their completion -/

/-- Every command has been completed, and every completion taken. -/
structure Idle (s : NvmeSys) : Prop where
  rings : ∃ h, Rings s h h
  pending : s.pending = []
  older : ∀ x ∈ s.completed, x.1 < s.submitted

/-- A device without commands posts nothing. -/
theorem devicePosts_idle (none : s.pending = []) (statuses : List Nat) :
    devicePosts statuses s = s := by
  induction statuses with
  | nil => rfl
  | cons status rest ih =>
      have same : devicePost status s = s := by
        unfold devicePost
        rw [none]
      unfold devicePosts at ih ⊢
      rw [List.foldl_cons, same]
      exact ih

/-- With one command and room for its completion, the device posts that and no other. -/
theorem devicePosts_one {q : Pending} (waiting : s.pending = [q])
    (room : (s.cqTail + 1) % s.depth ≠ s.cqHead) (status : Nat) (rest : List Nat) :
    devicePosts (status :: rest) s = posted s q [] status := by
  have first : devicePost status s = posted s q [] status := by
    unfold devicePost
    rw [waiting]
    dsimp only
    rw [if_neg room]
    rfl
  show devicePosts rest (devicePost status s) = _
  rw [first]
  exact devicePosts_idle rfl rest

/-- A ring whose completions have all been taken has room. -/
theorem Rings.room (rings : Rings s h h) : (s.cqTail + 1) % s.depth ≠ s.cqHead := by
  rw [rings.tail, rings.head, Nat.mod_add_mod]
  exact Ne.symm (place_ne (h := h) (i := 0) (n := 1) (by decide) rings.depth)

/-- A call that waits for the only command takes its completion when it is posted. -/
theorem nvmePoll_waiting {q : Pending} {n i : Nat} (rings : Rings s h h)
    (waiting : s.pending = [q]) (own : q.cmd.cid = cid)
    (timely : ∃ j, i ≤ j ∧ j < i + n ∧ sch j ≠ []) :
    ∃ j, ∃ status ∈ sch j, (nvmePoll sch cid n i s).1 = (if statusCode status = 0 then 0 else -2) ∧
      Rings (nvmePoll sch cid n i s).2 (h + 1) (h + 1) ∧
      (nvmePoll sch cid n i s).2.pending = [] ∧
      (nvmePoll sch cid n i s).2.submitted = s.submitted ∧
      (nvmePoll sch cid n i s).2.completed = s.completed ++ [(q.number, status)] := by
  induction n generalizing i with
  | zero =>
      obtain ⟨j, from_, below, -⟩ := timely
      omega
  | succ n ih =>
      unfold nvmePoll
      dsimp only
      cases here : sch i with
      | nil =>
          -- nothing has been posted, so that the entry at the head is of the round before
          have old : (s.cq s.cqHead).status % 2 ≠ s.cqPhase := fun phase =>
            Nat.lt_irrefl h (rings.posted_of_phase phase)
          have later : ∃ j, i + 1 ≤ j ∧ j < i + 1 + n ∧ sch j ≠ [] := by
            obtain ⟨j, from_, below, some_⟩ := timely
            have ne : j ≠ i := fun same => some_ (same ▸ here)
            exact ⟨j, by omega, by omega, some_⟩
          have same : devicePosts [] s = s := rfl
          rw [same, if_pos (.inl old)]
          exact ih later
      | cons status rest =>
          have posts := devicePosts_one waiting rings.room status rest
          have tail : s.cqTail = s.cqHead := rings.tail.trans rings.head.symm
          have phases : s.tailPhase = s.cqPhase := rings.tailPhase.trans rings.headPhase.symm
          have entry : (posted s q [] status).cq (posted s q [] status).cqHead =
              ⟨cid, (2 * status + s.cqPhase) % 65536⟩ := by
            show Function.update s.cq s.cqTail _ s.cqHead = _
            rw [tail, Function.update_self, own, phases]
          have le : s.cqPhase ≤ 1 := by
            rw [rings.headPhase]
            exact phaseOf_le _ _
          have samePhase : (posted s q [] status).cqPhase = s.cqPhase := rfl
          have match_ : ¬ ((2 * status + s.cqPhase) % 65536 % 2 ≠ s.cqPhase ∨ cid ≠ cid) := by
            omega
          have code : (2 * status + s.cqPhase) % 65536 / 2 % 256 = statusCode status := by
            unfold statusCode
            omega
          rw [posts, entry, samePhase, if_neg match_, code]
          have rings' := (rings.posted rings.room q [] status).consume (Nat.lt_succ_self h)
          exact ⟨i, status, by rw [here]; exact List.mem_cons_self, rfl, rings', rfl, rfl, rfl⟩

/-- **A call on an idle queue returns its own result and leaves the queue idle.** -/
theorem Idle.call (idle : Idle s) (cmd : NvmeCmd) (fine : Fine sch) :
    CallRight s (nvmeSubmitAndWait s cmd sch) ∧ Idle (nvmeSubmitAndWait s cmd sch).2 := by
  obtain ⟨h, rings⟩ := idle.rings
  obtain ⟨⟨j, lt, some_⟩, honest⟩ := fine
  have depth : s.depth ≠ 0 := fun zero => by
    have two := rings.depth
    omega
  have waiting : (submit s cmd).pending = [⟨s.submitted, { cmd with cid := s.nextCid }⟩] := by
    show s.pending ++ _ = _
    rw [idle.pending]
    rfl
  unfold nvmeSubmitAndWait
  rw [if_neg depth]
  have timely : ∃ j, 0 ≤ j ∧ j < 0 + nvmeTimeoutSpins ∧ sch j ≠ [] :=
    ⟨j, Nat.zero_le j, by omega, some_⟩
  obtain ⟨k, status, mem, code, rings', none, count, done⟩ :=
    nvmePoll_waiting (rings.submit cmd) waiting rfl timely
  have posted : (submit s cmd).completed = s.completed := rfl
  rw [posted] at done
  refine ⟨⟨fun zero => ?_, fun status' mem' => ?_⟩, ⟨h + 1, rings'⟩, none, fun x mem' => ?_⟩
  · have ok : statusCode status = 0 := by
      by_contra bad
      rw [code, if_neg bad] at zero
      exact absurd zero (by decide)
    refine ⟨status, ?_, ok, honest k status mem ok⟩
    rw [done]
    exact List.mem_append_right _ List.mem_cons_self
  · rw [done] at mem'
    rcases List.mem_append.1 mem' with old | new
    · exact absurd (idle.older _ old) (Nat.lt_irrefl _)
    · obtain rfl := (Prod.mk.inj (List.mem_singleton.1 new)).2
      rw [code]
      by_cases ok : statusCode status' = 0
      · rw [if_pos ok, if_pos ⟨ok, honest k status' mem ok⟩]
      · rw [if_neg ok, if_neg fun both => ok both.1]
  · rw [count]
    show x.1 < s.submitted + 1
    rw [done] at mem'
    rcases List.mem_append.1 mem' with old | new
    · exact Nat.lt_succ_of_lt (idle.older x old)
    · rw [List.mem_singleton.1 new]
      exact Nat.lt_succ_self _

theorem Idle.rwLoop (idle : Idle s) {schedules : Nat → Schedule} (fine : ∀ k, Fine (schedules k))
    (k : Nat) (cmds : List NvmeCmd) :
    CallsRight schedules k cmds s ∧ Idle (rwLoop schedules k cmds s).2 := by
  induction cmds generalizing s k with
  | nil => exact ⟨trivial, idle⟩
  | cons cmd rest ih =>
      obtain ⟨right, next⟩ := idle.call cmd (fine k)
      obtain ⟨rights, last⟩ := ih next (k + 1)
      refine ⟨⟨right, fun _ => rights⟩, ?_⟩
      unfold Drivers.rwLoop
      dsimp only
      split
      · exact next
      · exact last

/-- One step of a run whose calls take their completions. -/
theorem Idle.step (idle : Idle s) {op : NvmeOp} (fine : FineOp op) :
    OpRight s op ∧ Idle (nvmeStep s op) := by
  cases op with
  | device statuses =>
      refine ⟨trivial, ?_⟩
      show Idle (devicePosts statuses s)
      rw [devicePosts_idle idle.pending]
      exact idle
  | other =>
      obtain ⟨h, rings⟩ := idle.rings
      exact ⟨trivial, ⟨h, rings.other⟩, idle.pending, idle.older⟩
  | submit cmd sch => exact idle.call cmd fine
  | rw ns write page lba512 count schedules =>
      obtain ⟨rights, last⟩ := idle.rwLoop fine 0 (rwCommands ns write page lba512 count)
      have after : Idle (nvmeRwInternal s ns write page lba512 count schedules).2.2 := by
        rcases nvmeRwInternal_state s ns write page lba512 count schedules with same | loop
        · rw [same]
          exact idle
        · rw [loop]
          exact last
      refine ⟨⟨rights, fun freed _ q mem => ?_⟩, after⟩
      rw [after.pending] at mem
      exact absurd mem List.not_mem_nil

theorem Idle.run (idle : Idle s) {ops : List NvmeOp} (fine : ∀ op ∈ ops, FineOp op) :
    RunRight s ops := by
  induction ops generalizing s with
  | nil =>
      obtain ⟨h, rings⟩ := idle.rings
      exact ⟨h, h, rings⟩
  | cons op ops ih =>
      obtain ⟨first, later⟩ := List.forall_mem_cons.1 fine
      obtain ⟨h, rings⟩ := idle.rings
      obtain ⟨right, next⟩ := idle.step first
      exact ⟨⟨h, h, rings⟩, right, ih next later⟩

theorem idle_init {depth : Nat} (two : 2 ≤ depth) : Idle (nvmeInit depth) :=
  ⟨⟨0, rings_init two⟩, rfl, fun _ mem => absurd mem List.not_mem_nil⟩

/-! ## Calls that have not -/

/-- While nothing is posted, a call on a queue whose completions have all been taken waits. -/
theorem nvmePoll_unposted (rings : Rings s h h) (cid n i : Nat) :
    nvmePoll (fun _ => []) cid n i s = (-3, s) := by
  induction n generalizing i with
  | zero => rfl
  | succ n ih =>
      have old : (s.cq s.cqHead).status % 2 ≠ s.cqPhase := fun phase =>
        Nat.lt_irrefl h (rings.posted_of_phase phase)
      have same : devicePosts [] s = s := rfl
      rw [nvmePoll, same]
      exact (if_pos (.inl old)).trans (ih (i + 1))

/-- The device leaves an entry that has not been taken alone. -/
theorem Rings.devicePosts_head (rings : Rings s h p) (lt : h < p) (statuses : List Nat) :
    ∃ p', Rings (Drivers.devicePosts statuses s) h p' ∧ h < p' ∧
      (Drivers.devicePosts statuses s).cqHead = s.cqHead ∧
      (Drivers.devicePosts statuses s).cq s.cqHead = s.cq s.cqHead := by
  induction statuses generalizing s p with
  | nil => exact ⟨p, rings, lt, rfl, rfl⟩
  | cons status rest ih =>
      have posts : Drivers.devicePosts (status :: rest) s =
          Drivers.devicePosts rest (Drivers.devicePost status s) := rfl
      rcases devicePost_cases status s with same | ⟨q, later, -, room, eq⟩
      · rw [posts, same]
        exact ih rings lt
      · obtain ⟨p', rings', lt', head, entry⟩ :=
          ih (rings.posted room q later status) (Nat.lt_succ_of_lt lt)
        have apart : s.cqHead ≠ s.cqTail := by
          have ne := place_ne (h := h) (i := 0) (n := p - h) (by omega)
            (by have := rings.lt; omega : _ < s.depth)
          rwa [Nat.add_zero, Nat.add_sub_cancel' rings.le, ← rings.head, ← rings.tail] at ne
        have kept : (Drivers.posted s q later status).cq s.cqHead = s.cq s.cqHead :=
          Function.update_of_ne apart ..
        rw [posts, eq]
        exact ⟨p', rings', lt', head, entry.trans kept⟩

/-- **A completion with another number stays at the head**, and every call waits in vain. -/
theorem nvmePoll_stuck (rings : Rings s h p) (lt : h < p) (other : (s.cq s.cqHead).cid ≠ cid)
    (n i : Nat) : (nvmePoll sch cid n i s).1 = -3 := by
  induction n generalizing s p i with
  | zero => rfl
  | succ n ih =>
      obtain ⟨p', rings', lt', head, entry⟩ := rings.devicePosts_head lt (sch i)
      have other' : ((devicePosts (sch i) s).cq (devicePosts (sch i) s).cqHead).cid ≠ cid := by
        rw [head, entry]
        exact other
      unfold nvmePoll
      dsimp only
      rw [if_pos (.inr other')]
      exact ih rings' lt' other' (i + 1)

/-- The history only grows. -/
theorem completed_devicePosts {x : Nat × Nat} (mem : x ∈ s.completed) (statuses : List Nat) :
    x ∈ (devicePosts statuses s).completed := by
  induction statuses generalizing s with
  | nil => exact mem
  | cons status rest ih =>
      refine ih (s := devicePost status s) ?_
      rcases devicePost_cases status s with same | ⟨q, later, -, -, eq⟩
      · rw [same]
        exact mem
      · rw [eq]
        exact List.mem_append_left _ mem

theorem completed_poll {x : Nat × Nat} (mem : x ∈ s.completed) (cid n i : Nat) :
    x ∈ (nvmePoll sch cid n i s).2.completed := by
  induction n generalizing s i with
  | zero => exact mem
  | succ n ih =>
      have posted := completed_devicePosts mem (sch i)
      unfold nvmePoll
      dsimp only
      split
      · exact ih posted (i + 1)
      · exact posted

/-- A call is not right if its own completion has been posted behind another. -/
theorem not_callRight_of_late (rings : Rings s h p) (lt : h < p)
    (other : (s.cq s.cqHead).cid ≠ s.nextCid) {cmd : NvmeCmd} {status : Nat}
    (done : (s.submitted, status) ∈ (nvmeSubmitAndWait s cmd sch).2.completed) :
    ¬ CallRight s (nvmeSubmitAndWait s cmd sch) := by
  rintro ⟨-, own⟩
  have result := own status done
  have depth : s.depth ≠ 0 := fun zero => by
    have two := rings.depth
    omega
  have stuck : (nvmeSubmitAndWait s cmd sch).1 = -3 := by
    rw [nvmeSubmitAndWait, if_neg depth]
    exact nvmePoll_stuck (rings.submit cmd) lt other _ _
  rw [stuck] at result
  split at result <;> cases result

/-- The completion that is posted at the first look is posted when the call returns. -/
theorem completed_first {q : Pending} (waiting : s.pending = [q])
    (room : (s.cqTail + 1) % s.depth ≠ s.cqHead) {i status : Nat} {rest : List Nat}
    (posts : sch i = status :: rest) (cid n : Nat) :
    (q.number, status) ∈ (nvmePoll sch cid (n + 1) i s).2.completed := by
  have here : (q.number, status) ∈ (posted s q [] status).completed :=
    List.mem_append_right _ List.mem_cons_self
  unfold nvmePoll
  dsimp only
  rw [posts, devicePosts_one waiting room]
  split
  · exact completed_poll here ..
  · exact here

/-- **A command that is completed too late makes the next call wrong**, which its own completion
finds waiting for it. -/
theorem Idle.not_right (idle : Idle s) (three : 3 ≤ s.depth)
    (next : (s.nextCid + 1) % 65536 ≠ s.nextCid) (cmd₁ cmd₂ : NvmeCmd) (status : Nat) :
    ¬ RunRight s [.submit cmd₁ fun _ => [], .device [status], .submit cmd₂ fun _ => [status]] := by
  rintro ⟨-, -, -, -, -, right, -⟩
  obtain ⟨h, rings⟩ := idle.rings
  have depth : s.depth ≠ 0 := by omega
  have waited : nvmeStep s (.submit cmd₁ fun _ => []) = submit s cmd₁ := by
    show (nvmeSubmitAndWait s cmd₁ _).2 = _
    rw [nvmeSubmitAndWait, if_neg depth, nvmePoll_unposted (rings.submit cmd₁)]
  have waiting : (submit s cmd₁).pending = [⟨s.submitted, { cmd₁ with cid := s.nextCid }⟩] := by
    show s.pending ++ _ = _
    rw [idle.pending]
    rfl
  have late : nvmeStep (submit s cmd₁) (.device [status]) =
      posted (submit s cmd₁) ⟨s.submitted, { cmd₁ with cid := s.nextCid }⟩ [] status :=
    devicePosts_one waiting (rings.submit cmd₁).room status []
  rw [waited, late] at right
  have rings₁ := (rings.submit cmd₁).posted (rings.submit cmd₁).room
    ⟨s.submitted, { cmd₁ with cid := s.nextCid }⟩ [] status
  have tail : s.cqTail = s.cqHead := rings.tail.trans rings.head.symm
  generalize eq : posted (submit s cmd₁) ⟨s.submitted, { cmd₁ with cid := s.nextCid }⟩ [] status =
    s₁ at right rings₁
  have head : (s₁.cq s₁.cqHead).cid = s.nextCid := by
    subst eq
    show (Function.update s.cq s.cqTail _ s.cqHead).cid = _
    rw [tail, Function.update_self]
  have number : s₁.nextCid = (s.nextCid + 1) % 65536 := by
    subst eq
    rfl
  have done : s₁.pending = [] := by
    subst eq
    rfl
  have room : ((submit s₁ cmd₂).cqTail + 1) % (submit s₁ cmd₂).depth ≠ (submit s₁ cmd₂).cqHead := by
    have depth₁ : s₁.depth = s.depth := by
      subst eq
      rfl
    show (s₁.cqTail + 1) % s₁.depth ≠ s₁.cqHead
    rw [rings₁.tail, rings₁.head, Nat.mod_add_mod]
    exact Ne.symm (place_ne (h := h) (i := 0) (n := 2) (by decide) (by omega))
  have own : (s₁.submitted, status) ∈
      (nvmeSubmitAndWait s₁ cmd₂ fun _ => [status]).2.completed := by
    have waiting₂ : (submit s₁ cmd₂).pending =
        [⟨s₁.submitted, { cmd₂ with cid := s₁.nextCid }⟩] := by
      show s₁.pending ++ _ = _
      rw [done]
      rfl
    have depth₁ : s₁.depth ≠ 0 := fun zero => by
      have two := rings₁.depth
      omega
    obtain ⟨looks, more⟩ : ∃ looks, nvmeTimeoutSpins = looks + 1 := ⟨1999999, rfl⟩
    rw [nvmeSubmitAndWait, if_neg depth₁, more]
    exact completed_first waiting₂ room rfl ..
  refine not_callRight_of_late rings₁ (Nat.lt_succ_self h) ?_ own right
  rw [head, number]
  exact next.symm

/-! ## Runs -/

/-- **Every run is consistent, and a run is right in everything if in each of its calls the
device completes the command in time**, and no status has a zero code with another type. -/
theorem nvme_runs_right {depth : Nat} (two : 2 ≤ depth) :
    (∀ s, Reaches nvmeStep (nvmeInit depth) s → Consistent s) ∧
      ∀ ops, (∀ op ∈ ops, FineOp op) → RunRight (nvmeInit depth) ops := by
  refine ⟨fun s reach => ?_, fun ops fine => (idle_init two).run fine⟩
  have keep : ∀ s op, Consistent s → Consistent (nvmeStep s op) := fun _ op c => c.step op
  exact Reaches.invariant keep ⟨0, 0, rings_init two⟩ reach

/-- A command, and a transfer of three pages while the other queue is used. -/
theorem two_calls_right : 2 ≤ 64 ∧ RunRight (nvmeInit 64)
    [.submit ⟨6, 0, 1, 4096, 1, 0, 0⟩ (fun _ => [0]), .other,
      .rw ⟨true, 1, 512, 2048⟩ true 8192 0 20 (fun _ i => List.replicate (i / 9) 0)] := by
  refine ⟨by decide, (nvme_runs_right (by decide)).2 _ ?_⟩
  simp only [List.forall_mem_cons, List.not_mem_nil, false_implies, implies_true, and_true]
  refine ⟨⟨⟨0, by decide, List.cons_ne_nil _ _⟩, fun i status mem _ => ?_⟩, trivial,
    fun k => ⟨⟨9, by decide, List.cons_ne_nil _ _⟩, fun i status mem _ => ?_⟩⟩
  · obtain rfl := List.mem_singleton.1 mem
    rfl
  · obtain rfl := List.eq_of_mem_replicate mem
    rfl

/-- The first command has been completed too late, and the second is completed at once. -/
theorem late_completion_unmatched : ¬ RunRight (nvmeInit 64)
    [.submit ⟨6, 0, 1, 4096, 1, 0, 0⟩ (fun _ => []), .device [0],
      .submit ⟨6, 0, 1, 8192, 1, 0, 0⟩ (fun _ => [0])] :=
  (idle_init (by decide)).not_right (by decide) (by decide) _ _ _

end NTux.Drivers
