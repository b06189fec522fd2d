import NTux.Lib.RingBuffer
import NTux.Lib.Runs

/-!
# The message ring of the desktop

`deskapi_push` and `deskapi_pop` of `syscall/deskapi.c`.  A call checks its arguments, takes
the lock, and stores to the ring while it has it (`DeskCall.critical`).  The threads of
`DeskSystem` call at any time and are interleaved at every store.

Whatever the interleaving, what was popped and what is queued is what was pushed, in order
(`desk_ring_fifo`).
-/

namespace NTux.Desk

open NTux.Lib

/-- `DESKAPI_RING_SIZE`. -/
def deskapiRingSize : Nat := 128

/-- `DESKAPI_MAX_MSG`. -/
def deskapiMaxMsg : Nat := 60000

/-- `deskapi_msg_t`. -/
structure DeskMsg where
  len : Nat
  data : Nat → UInt8

/-- The bytes of a message. -/
def DeskMsg.bytes (msg : DeskMsg) : List UInt8 := (List.range msg.len).map msg.data

/-- `g_deskapi_ring`, `g_deskapi_head`, `g_deskapi_tail` and `g_deskapi_count`. -/
abbrev DeskRing := RingBuffer DeskMsg

/-- `memcpy` to the message. -/
def DeskMsg.copy (msg : DeskMsg) (buf : List UInt8) : DeskMsg :=
  { msg with data := fun i => buf.getD i (msg.data i) }

/-- A message of zeroes. -/
def DeskMsg.zero : DeskMsg := ⟨0, fun _ => 0⟩

/-! ## The calls -/

/-- `deskapi_push`; the buffer is the bytes it is called with, if it is not null. -/
def deskapiPush (r : DeskRing) (buf : Option (List UInt8)) : Int × DeskRing :=
  match buf with
  | none => (-1, r)
  | some buf =>
      if buf.length = 0 ∨ deskapiMaxMsg < buf.length then (-1, r)
      else if deskapiRingSize ≤ r.count then (-2, r)
      else
        -- the length is a `uint16_t`
        (0, r.push deskapiRingSize
          { (r.slots r.tail).copy buf with len := buf.length % 2 ^ 16 })

/-- What `deskapi_pop` returns and what it has stored for its caller. -/
structure PopResult where
  rc : Int
  out : List UInt8
  outLen : Option Nat
  deriving DecidableEq

/-- `deskapi_pop`; `out` is whether the buffer is not null. -/
def deskapiPop (r : DeskRing) (out : Bool) (cap : Nat) : PopResult × DeskRing :=
  if !out ∨ cap = 0 ∨ deskapiMaxMsg + 1 < cap then (⟨-1, [], none⟩, r)
  else if r.count = 0 then (⟨1, [], some 0⟩, r)
  else
    let msg := r.slots r.head
    if cap ≤ msg.len then (⟨-2, [], none⟩, r)
    else (⟨0, msg.bytes ++ [0], some msg.len⟩, r.pop deskapiRingSize)

/-! ## The calls, store by store -/

/-- A call of a thread. -/
inductive DeskCall
  | push (buf : Option (List UInt8))
  | pop (out : Bool) (cap : Nat)

/-- What a call returns. -/
inductive DeskResult
  | pushed (rc : Int)
  | popped (res : PopResult)

/-- The call has not returned 0. -/
def DeskResult.failed : DeskResult → Bool
  | .pushed rc => rc ≠ 0
  | .popped res => res.rc ≠ 0

/-- A store to the ring. -/
inductive RingStore
  | data (buf : List UInt8)
  | len (n : Nat)
  | tail
  | countUp
  | head
  | countDown

/-- What a store does. -/
def RingStore.apply (r : DeskRing) : RingStore → DeskRing
  | .data buf => { r with slots := Function.update r.slots r.tail ((r.slots r.tail).copy buf) }
  | .len n =>
      { r with slots := Function.update r.slots r.tail { r.slots r.tail with len := n % 2 ^ 16 } }
  | .tail => { r with tail := (r.tail + 1) % deskapiRingSize }
  | .countUp => { r with count := r.count + 1 }
  | .head => { r with head := (r.head + 1) % deskapiRingSize }
  | .countDown => { r with count := r.count - 1 }

/-- What a call returns without the lock. -/
def DeskCall.rejected : DeskCall → Option DeskResult
  | .push none => some (.pushed (-1))
  | .push (some buf) =>
      if buf.length = 0 ∨ deskapiMaxMsg < buf.length then some (.pushed (-1)) else none
  | .pop out cap =>
      if !out ∨ cap = 0 ∨ deskapiMaxMsg + 1 < cap then some (.popped ⟨-1, [], none⟩) else none

/-- What a call returns that has got the lock, and its stores. -/
def DeskCall.critical (r : DeskRing) : DeskCall → DeskResult × List RingStore
  | .push none => (.pushed (-1), [])
  | .push (some buf) =>
      if deskapiRingSize ≤ r.count then (.pushed (-2), [])
      else (.pushed 0, [.data buf, .len buf.length, .tail, .countUp])
  | .pop _ cap =>
      if r.count = 0 then (.popped ⟨1, [], some 0⟩, [])
      else
        let msg := r.slots r.head
        if cap ≤ msg.len then (.popped ⟨-2, [], none⟩, [])
        else (.popped ⟨0, msg.bytes ++ [0], some msg.len⟩, [.head, .countDown])

/-- The ring, who has `g_deskapi_lock`, what the thread that has it still stores, and the
calls that have returned. -/
structure DeskSystem where
  ring : DeskRing
  lock : Option Nat
  inside : Nat → Option (DeskCall × DeskResult × List RingStore)
  log : List (DeskCall × DeskResult)

/-- Before the first call. -/
def deskBoot : DeskSystem := ⟨⟨fun _ => .zero, 0, 0, 0⟩, none, fun _ => none, []⟩

/-- What a thread does next: it calls, stores, or gives the lock back. -/
inductive DeskAction
  | call (tid : Nat) (c : DeskCall)
  | store (tid : Nat)
  | unlock (tid : Nat)

/-- One step.  A call that finds the lock taken tries again. -/
def deskStep (x : DeskSystem) : DeskAction → DeskSystem
  | .call tid c =>
      if (x.inside tid).isSome then x
      else
        match c.rejected with
        | some res => { x with log := x.log ++ [(c, res)] }
        | none =>
            if x.lock.isSome then x
            else
              let (res, stores) := c.critical x.ring
              { x with
                lock := some tid
                inside := Function.update x.inside tid (some (c, res, stores)) }
  | .store tid =>
      match x.inside tid with
      | some (c, res, s :: stores) =>
          { x with
            ring := s.apply x.ring
            inside := Function.update x.inside tid (some (c, res, stores)) }
      | _ => x
  | .unlock tid =>
      match x.inside tid with
      | some (c, res, []) =>
          { x with
            lock := none
            inside := Function.update x.inside tid none
            log := x.log ++ [(c, res)] }
      | _ => x

/-- The stores of a call that is not interrupted are the call. -/
theorem critical_push (r : DeskRing) {buf : Option (List UInt8)}
    (passed : (DeskCall.push buf).rejected = none) :
    deskapiPush r buf = (match ((DeskCall.push buf).critical r).1 with
      | .pushed rc => rc
      | .popped _ => 0, ((DeskCall.push buf).critical r).2.foldl RingStore.apply r) := by
  cases buf with
  | none => cases passed
  | some buf =>
      unfold DeskCall.rejected at passed
      dsimp only at passed
      split at passed
      · cases passed
      next sized =>
        unfold deskapiPush DeskCall.critical
        dsimp only
        rw [if_neg sized]
        split
        · rfl
        · refine Prod.ext rfl (RingBuffer.ext ?_ rfl rfl rfl)
          show Function.update r.slots r.tail _ = Function.update (Function.update r.slots r.tail _)
            r.tail _
          rw [Function.update_idem]
          show _ = Function.update r.slots r.tail
            { len := buf.length % 2 ^ 16
              data := (Function.update r.slots r.tail ((r.slots r.tail).copy buf) r.tail).data }
          rw [Function.update_self]

theorem critical_pop (r : DeskRing) {out : Bool} {cap : Nat}
    (passed : (DeskCall.pop out cap).rejected = none) :
    DeskResult.popped (deskapiPop r out cap).1 = ((DeskCall.pop out cap).critical r).1 ∧
      (deskapiPop r out cap).2 =
        ((DeskCall.pop out cap).critical r).2.foldl RingStore.apply r := by
  unfold DeskCall.rejected at passed
  dsimp only at passed
  split at passed
  · cases passed
  next sized =>
    unfold deskapiPop DeskCall.critical
    rw [if_neg sized]
    dsimp only
    split
    · exact ⟨rfl, rfl⟩
    split
    · exact ⟨rfl, rfl⟩
    · exact ⟨rfl, rfl⟩

/-! ## First in, first out -/

/-- The messages of a push that returns 0. -/
def pushedBy : DeskCall × DeskResult → List (List UInt8)
  | (.push (some buf), .pushed 0) => [buf]
  | _ => []

/-- What a pop that returns 0 has stored, and the length it has stored. -/
def deliveredBy : DeskCall × DeskResult → List (List UInt8 × Option Nat)
  | (_, .popped ⟨0, out, outLen⟩) => [(out, outLen)]
  | _ => []

/-- What is delivered for a message: its bytes and a zero, and its length. -/
def delivery (msg : List UInt8) : List UInt8 × Option Nat := (msg ++ [0], some msg.length)

/-- The messages are queued, and no other ones. -/
def Queued (r : DeskRing) (waiting : List (List UInt8)) : Prop :=
  ∃ msgs : List DeskMsg, RingBuffer.Holds deskapiRingSize r msgs ∧ msgs.map DeskMsg.bytes = waiting

/-- A step of a call that fails leaves the ring as it is. -/
def FailsQuietly (x : DeskSystem) (a : DeskAction) : Prop :=
  (∀ tid c, a = .call tid c → (deskStep x a).ring = x.ring) ∧
    (∀ tid, a = .unlock tid → (deskStep x a).ring = x.ring) ∧
    ∀ tid c res stores, a = .store tid → x.inside tid = some (c, res, stores) →
      res.failed = true → (deskStep x a).ring = x.ring

/-- The bytes of a message that was stored. -/
theorem bytes_copy (msg : DeskMsg) {buf : List UInt8} (short : buf.length ≤ deskapiMaxMsg) :
    DeskMsg.bytes { msg.copy buf with len := buf.length % 2 ^ 16 } = buf := by
  have small : buf.length % 2 ^ 16 = buf.length := Nat.mod_eq_of_lt (by
    unfold deskapiMaxMsg at short
    omega)
  unfold DeskMsg.bytes DeskMsg.copy
  dsimp only
  rw [small]
  refine List.ext_getElem (by rw [List.length_map, List.length_range]) fun i _ inside => ?_
  rw [List.getElem_map, List.getElem_range, List.getD_eq_getElem?_getD,
    List.getElem?_eq_getElem inside, Option.getD_some]

theorem bytes_length (msg : DeskMsg) : msg.bytes.length = msg.len := by
  unfold DeskMsg.bytes
  rw [List.length_map, List.length_range]

/-- A push that is not refused puts its message behind the last one. -/
theorem Queued.push {r : DeskRing} {waiting : List (List UInt8)} (queued : Queued r waiting)
    {buf : List UInt8} (short : buf.length ≤ deskapiMaxMsg) (room : r.count < deskapiRingSize) :
    Queued (r.push deskapiRingSize
      { (r.slots r.tail).copy buf with len := buf.length % 2 ^ 16 }) (waiting ++ [buf]) := by
  obtain ⟨msgs, holds, rfl⟩ := queued
  refine ⟨_, holds.push (holds.count ▸ room), ?_⟩
  rw [List.map_append, List.map_singleton, bytes_copy _ short]

/-- What a call that has got the lock does, uninterrupted. -/
theorem critical_spec {r : DeskRing} {waiting : List (List UInt8)} (queued : Queued r waiting)
    {c : DeskCall} (passed : c.rejected = none) :
    ∃ waiting', Queued ((c.critical r).2.foldl RingStore.apply r) waiting' ∧
      deliveredBy (c, (c.critical r).1) ++ waiting'.map delivery =
        (waiting ++ pushedBy (c, (c.critical r).1)).map delivery := by
  cases c with
  | push buf =>
      have whole := critical_push r passed
      cases buf with
      | none => cases passed
      | some buf =>
          unfold DeskCall.critical at whole ⊢
          dsimp only at whole ⊢
          split
          next full => exact ⟨waiting, queued, by rw [show pushedBy _ = [] from rfl]; simp [deliveredBy]⟩
          next room =>
            rw [if_neg room] at whole
            unfold DeskCall.rejected at passed
            dsimp only at passed
            split at passed
            · cases passed
            next sized =>
              rw [not_or] at sized
              refine ⟨waiting ++ [buf], ?_, rfl⟩
              have pushed := queued.push (Nat.not_lt.1 sized.2) (Nat.not_le.1 room)
              unfold deskapiPush at whole
              dsimp only at whole
              rw [if_neg (not_or.2 sized), if_neg room] at whole
              rw [← (Prod.mk.inj whole).2]
              exact pushed
  | pop out cap =>
      obtain ⟨msgs, holds, rfl⟩ := queued
      unfold DeskCall.critical
      dsimp only
      split
      next empty => exact ⟨_, ⟨msgs, holds, rfl⟩, by simp [deliveredBy, pushedBy]⟩
      next some =>
        split
        next short => exact ⟨_, ⟨msgs, holds, rfl⟩, by simp [deliveredBy, pushedBy]⟩
        next =>
          cases msgs with
          | nil => exact absurd holds.count some
          | cons msg msgs =>
              refine ⟨msgs.map DeskMsg.bytes, ⟨msgs, holds.pop, rfl⟩, ?_⟩
              rw [holds.first]
              show [(msg.bytes ++ [0], _)] ++ _ = _
              simp [pushedBy, delivery, bytes_length]

/-- The ring is never overfull, not even while a call stores. -/
theorem critical_count {r : DeskRing} (le : r.count ≤ deskapiRingSize) (c : DeskCall)
    {done : List RingStore} (pre : done <+: (c.critical r).2) :
    (done.foldl RingStore.apply r).count ≤ deskapiRingSize := by
  have quiet : ∀ {l : List RingStore}, l <+: [] →
      (l.foldl RingStore.apply r).count ≤ deskapiRingSize := by
    intro l nil
    rw [List.prefix_nil.1 nil]
    exact le
  cases c with
  | push buf =>
      cases buf with
      | none => exact quiet pre
      | some buf =>
          unfold DeskCall.critical at pre
          dsimp only at pre
          split at pre
          · exact quiet pre
          next room =>
            simp only [List.prefix_cons_iff, List.prefix_nil] at pre
            rcases pre with rfl | ⟨_, rfl, rfl | ⟨_, rfl, rfl | ⟨_, rfl, rfl | ⟨_, rfl, rfl⟩⟩⟩⟩
            · exact le
            · exact le
            · exact le
            · exact le
            · exact Nat.not_le.1 room
  | pop out cap =>
      unfold DeskCall.critical at pre
      dsimp only at pre
      split at pre
      · exact quiet pre
      split at pre
      · exact quiet pre
      · simp only [List.prefix_cons_iff, List.prefix_nil] at pre
        rcases pre with rfl | ⟨_, rfl, rfl | ⟨_, rfl, rfl⟩⟩
        · exact le
        · exact le
        · exact (Nat.sub_le _ 1).trans le

/-- The calls that have returned and the messages that wait are what was pushed.  While a
thread has the lock, the ring is as its call has left it so far. -/
structure DeskOk (x : DeskSystem) (waiting : List (List UInt8)) (base : DeskRing) : Prop where
  inOrder : x.log.flatMap deliveredBy ++ waiting.map delivery =
    (x.log.flatMap pushedBy).map delivery
  queued : Queued base waiting
  outside : ∀ tid, x.lock ≠ some tid → x.inside tid = none
  free : x.lock = none → x.ring = base
  held : ∀ tid, x.lock = some tid → ∃ c done todo,
    x.inside tid = some (c, (c.critical base).1, todo) ∧ c.rejected = none ∧
      (c.critical base).2 = done ++ todo ∧ x.ring = done.foldl RingStore.apply base

/-- A thread inside the ring has the lock, and has come as far as the ring shows. -/
theorem DeskOk.inside_lock {x : DeskSystem} {waiting : List (List UInt8)} {base : DeskRing}
    (ok : DeskOk x waiting base) {tid : Nat} {c : DeskCall} {res : DeskResult}
    {todo : List RingStore} (inside : x.inside tid = some (c, res, todo)) :
    x.lock = some tid ∧ ∃ done, res = (c.critical base).1 ∧ c.rejected = none ∧
      (c.critical base).2 = done ++ todo ∧ x.ring = done.foldl RingStore.apply base := by
  have here : x.lock = some tid := by
    by_contra other
    rw [ok.outside tid other] at inside
    cases inside
  obtain ⟨c', done, todo', eq, passed, whole, sofar⟩ := ok.held tid here
  rw [eq] at inside
  cases inside
  exact ⟨here, done, rfl, passed, whole, sofar⟩

theorem rejected_quiet {c : DeskCall} {res : DeskResult} (rejected : c.rejected = some res) :
    deliveredBy (c, res) = [] ∧ pushedBy (c, res) = [] := by
  cases c with
  | push buf =>
      cases buf with
      | none =>
          cases rejected
          exact ⟨rfl, rfl⟩
      | some buf =>
          unfold DeskCall.rejected at rejected
          dsimp only at rejected
          split at rejected
          · cases rejected
            exact ⟨rfl, rfl⟩
          · cases rejected
  | pop out cap =>
      unfold DeskCall.rejected at rejected
      dsimp only at rejected
      split at rejected
      · cases rejected
        exact ⟨rfl, rfl⟩
      · cases rejected

theorem critical_failed (r : DeskRing) {c : DeskCall} (failed : (c.critical r).1.failed = true) :
    (c.critical r).2 = [] := by
  cases c with
  | push buf =>
      cases buf with
      | none => rfl
      | some buf =>
          unfold DeskCall.critical at failed ⊢
          dsimp only at failed ⊢
          split
          · rfl
          next room =>
            rw [if_neg room] at failed
            cases failed
  | pop out cap =>
      unfold DeskCall.critical at failed ⊢
      dsimp only at failed ⊢
      split
      · rfl
      next some =>
        rw [if_neg some] at failed
        split
        · rfl
        next long =>
          rw [if_neg long] at failed
          cases failed

/-- The ring is in order. -/
def DeskInv (x : DeskSystem) : Prop := ∃ waiting base, DeskOk x waiting base

theorem deskOk_boot : DeskOk deskBoot [] deskBoot.ring where
  inOrder := rfl
  queued := ⟨[], RingBuffer.holds_nil (by decide) _, rfl⟩
  outside := fun _ _ => rfl
  free := fun _ => rfl
  held := fun _ none => by cases none

/-- Every step keeps the order. -/
theorem deskInv_step (x : DeskSystem) (a : DeskAction) (ok : DeskInv x) :
    DeskInv (deskStep x a) := by
  obtain ⟨waiting, base, ok⟩ := ok
  cases a with
  | call tid c =>
      unfold deskStep
      dsimp only
      split
      · exact ⟨waiting, base, ok⟩
      split
      next res rejected =>
        refine ⟨waiting, base, ?_, ok.queued, ok.outside, ok.free, ok.held⟩
        show (x.log ++ [(c, res)]).flatMap deliveredBy ++ _ = _
        rw [List.flatMap_append, List.flatMap_append, List.flatMap_singleton,
          List.flatMap_singleton, (rejected_quiet rejected).1, (rejected_quiet rejected).2,
          List.append_nil, List.append_nil]
        exact ok.inOrder
      next passed =>
        split
        · exact ⟨waiting, base, ok⟩
        next unlocked =>
          have free : x.lock = none := Option.not_isSome_iff_eq_none.1 unlocked
          have same := ok.free free
          refine ⟨waiting, base, ok.inOrder, ok.queued, fun u other => ?_,
            fun unlocked => (by cases unlocked), fun u here => ?_⟩
          · have ne : u ≠ tid := fun eq => other (eq ▸ rfl)
            exact (Function.update_of_ne ne _ _).trans (ok.outside u fun taken => by
              rw [free] at taken
              cases taken)
          -- the lock is taken, and none of the stores of the call is done
          · obtain rfl : tid = u := Option.some.inj here
            rw [same]
            exact ⟨c, [], (c.critical base).2, Function.update_self .., passed, rfl, rfl⟩
  | store tid =>
      unfold deskStep
      dsimp only
      split
      next c res s stores inside =>
        obtain ⟨here, done, rfl, passed, whole, sofar⟩ := ok.inside_lock inside
        refine ⟨waiting, base, ok.inOrder, ok.queued, fun u other => ?_, fun unlocked => ?_,
          fun u there => ?_⟩
        · have ne : u ≠ tid := fun eq => other (eq ▸ here)
          exact (Function.update_of_ne ne _ _).trans (ok.outside u other)
        · rw [show x.lock = none from unlocked] at here
          cases here
        · obtain rfl : tid = u := Option.some.inj (here.symm.trans there)
          refine ⟨c, done ++ [s], stores, Function.update_self .., passed, ?_, ?_⟩
          · rw [whole, List.append_assoc]
            rfl
          · show s.apply x.ring = _
            rw [sofar, List.foldl_append]
            rfl
      next => exact ⟨waiting, base, ok⟩
  | unlock tid =>
      unfold deskStep
      dsimp only
      split
      next c res inside =>
        obtain ⟨here, done, rfl, passed, whole, sofar⟩ := ok.inside_lock inside
        obtain ⟨waiting', queued, order⟩ := critical_spec ok.queued passed
        -- no store is left, so the ring is what the whole call makes of the one it began with
        rw [whole, List.append_nil, ← sofar] at queued
        refine ⟨waiting', x.ring, ?_, queued, fun u _ => ?_, fun _ => rfl, fun u none => by cases none⟩
        · show (x.log ++ [_]).flatMap deliveredBy ++ _ = ((x.log ++ [_]).flatMap pushedBy).map _
          rw [List.flatMap_append, List.flatMap_append, List.flatMap_singleton,
            List.flatMap_singleton, List.append_assoc, order, List.map_append, List.map_append,
            ← List.append_assoc, ok.inOrder]
        · rcases eq_or_ne u tid with rfl | ne
          · exact Function.update_self ..
          · refine (Function.update_of_ne ne _ _).trans (ok.outside u fun there => ne ?_)
            exact (Option.some.inj (here.symm.trans there)).symm
      next => exact ⟨waiting, base, ok⟩

theorem failsQuietly_of_inv (x : DeskSystem) (a : DeskAction) (ok : DeskInv x) :
    FailsQuietly x a := by
  obtain ⟨waiting, base, ok⟩ := ok
  refine ⟨fun tid c eq => ?_, fun tid eq => ?_, fun tid c res stores eq inside failed => ?_⟩
  · subst eq
    unfold deskStep
    dsimp only
    split
    · rfl
    split
    · rfl
    split
    · rfl
    · rfl
  · subst eq
    unfold deskStep
    dsimp only
    split
    · rfl
    · rfl
  · subst eq
    have here : x.lock = some tid := by
      by_contra other
      rw [ok.outside tid other] at inside
      cases inside
    obtain ⟨c', done, todo, eq, -, whole, -⟩ := ok.held tid here
    rw [eq] at inside
    obtain ⟨rfl, same⟩ := Prod.mk.inj (Option.some.inj inside)
    obtain ⟨rfl, rfl⟩ := Prod.mk.inj same
    rw [critical_failed base failed] at whole
    obtain ⟨-, rfl⟩ := List.append_eq_nil_iff.1 whole.symm
    unfold deskStep
    dsimp only
    rw [eq]

/-- Along every interleaving: what pops have delivered and the messages that wait are what
was pushed, in order, the messages that wait are those in the ring whenever it is unlocked,
there are never more than it has room for, and calls that fail leave it as it is. -/
theorem desk_ring_fifo (as : List DeskAction) :
    (∃ waiting : List (List UInt8),
      (run deskStep deskBoot as).log.flatMap deliveredBy ++ waiting.map delivery =
        ((run deskStep deskBoot as).log.flatMap pushedBy).map delivery ∧
      waiting.length ≤ deskapiRingSize ∧
      ((run deskStep deskBoot as).lock = none → Queued (run deskStep deskBoot as).ring waiting)) ∧
    (run deskStep deskBoot as).ring.count ≤ deskapiRingSize ∧
    AllSteps deskStep FailsQuietly deskBoot as := by
  have start : DeskInv deskBoot := ⟨_, _, deskOk_boot⟩
  obtain ⟨waiting, base, ok⟩ : DeskInv (run deskStep deskBoot as) :=
    Reaches.invariant deskInv_step start ⟨as, rfl⟩
  refine ⟨⟨waiting, ok.inOrder, ?_, fun free => (ok.free free).symm ▸ ok.queued⟩, ?_,
    AllSteps.of_kept deskInv_step failsQuietly_of_inv start as⟩
  · obtain ⟨msgs, holds, rfl⟩ := ok.queued
    rw [List.length_map]
    exact holds.fits
  · obtain ⟨msgs, holds, -⟩ := ok.queued
    have le : base.count ≤ deskapiRingSize := holds.count ▸ holds.fits
    cases lock : (run deskStep deskBoot as).lock with
    | none =>
        rw [ok.free lock]
        exact le
    | some tid =>
        obtain ⟨c, done, todo, -, -, whole, sofar⟩ := ok.held tid lock
        rw [sofar]
        exact critical_count le c ⟨todo, whole.symm⟩

end NTux.Desk
