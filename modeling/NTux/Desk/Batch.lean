import NTux.Lib.Runs
import Mathlib.Data.List.Infix

/-!
# Drawing in batches

`window_clear`, the draw calls and `window_present` of the C library.  What is drawn is
gathered in one batch for the last window drawn in, which is sent when it is full, when
another window is drawn in, and before a window is presented.

A call that has to send the batch of another window, or a full one, passes over whether that
worked.  Where it does, and no window with number 0 is left with something drawn, each window
gets what was drawn in it (`window_draws_arrive`).
-/

namespace NTux.Desk

open NTux.Lib

/-- `WINDOW_MAX_MSG`. -/
def windowMaxMsg : Nat := 60000

/-- `sizeof(window_batch_msg_t)`. -/
def batchHeaderSize : Nat := 32

/-- `sizeof(window_draw_op_t)`. -/
def drawOpSize : Nat := 148

/-- `window_draw_op_t`. -/
structure DrawOp where
  type : Nat
  filled : UInt8
  x : BitVec 16
  y : BitVec 16
  w : BitVec 16
  h : BitVec 16
  x2 : BitVec 16
  y2 : BitVec 16
  color : UInt32
  text : List UInt8
  deriving DecidableEq

/-- An operation of zeroes. -/
def DrawOp.zero : DrawOp := ⟨0, 0, 0, 0, 0, 0, 0, 0, 0, []⟩

/-- `window_batch_state_t`; the operations are the first `count` ones. -/
structure Batch where
  id : Nat
  clearColor : UInt32
  clearValid : Bool
  ops : List DrawOp

/-- `window_batch_msg_t`. -/
structure BatchMsg where
  size : Nat
  id : Nat
  count : Nat
  clearValid : Bool
  clearColor : UInt32
  ops : List DrawOp

/-- What is drawn in a window. -/
inductive Drawing
  | clear (color : UInt32)
  | op (op : DrawOp)

/-- What a batch draws. -/
def Batch.drawings (b : Batch) : List Drawing :=
  (if b.clearValid then [.clear b.clearColor] else []) ++ b.ops.map .op

/-- What a message draws. -/
def BatchMsg.drawings (msg : BatchMsg) : List Drawing :=
  (if msg.clearValid then [.clear msg.clearColor] else []) ++ msg.ops.map .op

/-- What happens: a call draws, a batch is queued or refused, a window is presented.  Of a
batch that is refused it is noted whether the caller is told. -/
inductive DrawEvent
  | drawn (id : Nat) (drawing : Drawing)
  | sent (msg : BatchMsg)
  | refused (msg : BatchMsg) (told : Bool)
  | presented (id : Nat)

/-- `g_batch`, the number of pushes so far, and what has happened. -/
structure WindowState where
  batch : Batch
  pushes : Nat
  log : List DrawEvent

/-- Nothing drawn yet. -/
def windowBoot : WindowState := ⟨⟨0, 0, false, []⟩, 0, []⟩

section Calls

-- what the pushes return, one after the other
variable (answer : Nat → Int)

/-- The attempts of `window_send_raw`, `n` pushes into the run. -/
def sendAttempts : Nat → Nat → Int × Nat
  | 0, n => (-1, n)
  | k + 1, n =>
      if answer n = 0 then (0, n + 1)
      else if answer n = -2 then sendAttempts k (n + 1)
      else (-1, n + 1)

/-- `window_send_raw`. -/
def windowSendRaw (n : Nat) : Int × Nat := sendAttempts answer 8 n

/-- `window_batch_max_ops`. -/
def windowBatchMaxOps : Nat := (windowMaxMsg - batchHeaderSize) / drawOpSize

/-- The message that `window_batch_flush` builds. -/
def Batch.msg (b : Batch) : BatchMsg :=
  let ops := b.ops.take windowBatchMaxOps
  ⟨batchHeaderSize + drawOpSize * ops.length, b.id, ops.length, b.clearValid, b.clearColor, ops⟩

/-- `window_batch_flush`; `told` is whether the caller returns what it returns. -/
def windowBatchFlush (told : Bool) (x : WindowState) : Int × WindowState :=
  if x.batch.ops = [] ∧ x.batch.clearValid = false then (0, x)
  else if windowMaxMsg < x.batch.msg.size then (-1, x)
  else
    let (rc, n) := windowSendRaw answer x.pushes
    (rc,
      { batch := { x.batch with ops := [], clearColor := 0, clearValid := false }
        pushes := n
        log := x.log ++ [if rc = 0 then .sent x.batch.msg else .refused x.batch.msg told] })

/-- `window_batch_ensure_id`. -/
def windowBatchEnsureId (id : Nat) (x : WindowState) : WindowState :=
  if x.batch.id = 0 ∨ x.batch.id = id then { x with batch := { x.batch with id := id } }
  else
    let x := (windowBatchFlush answer false x).2
    { x with batch := { x.batch with id := id } }

/-- `window_batch_push_op`. -/
def windowBatchPushOp (id : Nat) (op : DrawOp) (x : WindowState) : WindowState :=
  let x := windowBatchEnsureId answer id x
  if windowBatchMaxOps = 0 then x
  else
    let x :=
      if windowBatchMaxOps ≤ x.batch.ops.length then
        let x := (windowBatchFlush answer false x).2
        { x with batch := { x.batch with id := id } }
      else x
    if x.batch.ops.length < windowBatchMaxOps then
      { x with
        batch := { x.batch with ops := x.batch.ops ++ [op] }
        log := x.log ++ [.drawn id (.op op)] }
    else x

/-- `window_clear`. -/
def windowClear (id : Nat) (color : UInt32) (x : WindowState) : WindowState :=
  let x := windowBatchEnsureId answer id x
  { x with
    batch := { x.batch with clearValid := true, clearColor := color, ops := [] }
    log := x.log ++ [.drawn id (.clear color)] }

/-- `window_draw_rect`. -/
def windowDrawRect (id : Nat) (x y w h : Int) (color : UInt32) (filled : Bool) :
    WindowState → WindowState :=
  windowBatchPushOp answer id
    { DrawOp.zero with
      type := 1
      filled := if filled then 1 else 0
      x := .ofInt 16 x
      y := .ofInt 16 y
      w := .ofInt 16 w
      h := .ofInt 16 h
      color := color }

/-- `window_draw_line`. -/
def windowDrawLine (id : Nat) (x0 y0 x1 y1 : Int) (color : UInt32) : WindowState → WindowState :=
  windowBatchPushOp answer id
    { DrawOp.zero with
      type := 2
      x := .ofInt 16 x0
      y := .ofInt 16 y0
      x2 := .ofInt 16 x1
      y2 := .ofInt 16 y1
      color := color }

/-- `window_draw_text`. -/
def windowDrawText (id : Nat) (x y : Int) (color : UInt32) (text : List UInt8) :
    WindowState → WindowState :=
  windowBatchPushOp answer id
    { DrawOp.zero with
      type := 3
      x := .ofInt 16 x
      y := .ofInt 16 y
      color := color
      text := text.take 127 }

/-- `window_draw_button`. -/
def windowDrawButton (id : Nat) (x y w h : Int) (text : List UInt8) (kind : UInt8) :
    WindowState → WindowState :=
  windowBatchPushOp answer id
    { DrawOp.zero with
      type := 4
      filled := kind
      x := .ofInt 16 x
      y := .ofInt 16 y
      w := .ofInt 16 w
      h := .ofInt 16 h
      text := text.take 127 }

/-- `window_present`. -/
def windowPresent (id : Nat) (x : WindowState) : Int × WindowState :=
  let x := windowBatchEnsureId answer id x
  let (rc, x) := windowBatchFlush answer true x
  if rc ≠ 0 then (rc, x)
  else
    let (rc, n) := windowSendRaw answer x.pushes
    (rc, { x with
      pushes := n
      log := if rc = 0 then x.log ++ [.presented id] else x.log })

/-- A call of a program. -/
inductive WindowCall
  | clear (id : Nat) (color : UInt32)
  | rect (id : Nat) (x y w h : Int) (color : UInt32) (filled : Bool)
  | line (id : Nat) (x0 y0 x1 y1 : Int) (color : UInt32)
  | text (id : Nat) (x y : Int) (color : UInt32) (text : List UInt8)
  | button (id : Nat) (x y w h : Int) (text : List UInt8) (kind : UInt8)
  | present (id : Nat)

/-- The window of a call. -/
def WindowCall.id : WindowCall → Nat
  | .clear id _ | .rect id .. | .line id .. | .text id .. | .button id .. | .present id => id

/-- What a call leaves. -/
def windowStep (x : WindowState) : WindowCall → WindowState
  | .clear id color => windowClear answer id color x
  | .rect id a b w h color filled => windowDrawRect answer id a b w h color filled x
  | .line id a b c d color => windowDrawLine answer id a b c d color x
  | .text id a b color text => windowDrawText answer id a b color text x
  | .button id a b w h text kind => windowDrawButton answer id a b w h text kind x
  | .present id => (windowPresent answer id x).2

end Calls

/-! ## What arrives -/

/-- The events of a window. -/
def DrawEvent.isOf (id : Nat) : DrawEvent → Bool
  | .drawn w _ => w = id
  | .sent msg => msg.id = id
  | .refused msg _ => msg.id = id
  | .presented w => w = id

/-- The history of a window says what has been carried and what waits: batches carry what was
drawn, in order, except that what waits may be dropped at a clear; it is all carried before
the window is presented, and what a refused batch had is lost only if the caller is told. -/
inductive Arrives : List DrawEvent → List Drawing → List Drawing → Prop
  | nil : Arrives [] [] []
  | drawn {h carried waiting} (id : Nat) (d : Drawing) :
      Arrives h carried waiting → Arrives (h ++ [.drawn id d]) carried (waiting ++ [d])
  | cleared {h carried waiting kept} (id : Nat) (color : UInt32) :
      Arrives h carried waiting → kept.Sublist waiting →
        Arrives (h ++ [.drawn id (.clear color)]) carried (kept ++ [.clear color])
  | sent {h carried waiting} (msg : BatchMsg) :
      Arrives h carried (msg.drawings ++ waiting) →
        Arrives (h ++ [.sent msg]) (carried ++ msg.drawings) waiting
  | refused {h carried waiting} (msg : BatchMsg) :
      Arrives h carried (msg.drawings ++ waiting) →
        Arrives (h ++ [.refused msg true]) carried waiting
  | presented {h carried} (id : Nat) :
      Arrives h carried [] → Arrives (h ++ [.presented id]) carried []

/-- The message is no larger than it may be, and has the size it says. -/
def BatchMsg.Fits (msg : BatchMsg) : Prop :=
  msg.size ≤ windowMaxMsg ∧ msg.size = batchHeaderSize + drawOpSize * msg.ops.length ∧
    msg.count = msg.ops.length

/-- The messages of an event. -/
def DrawEvent.msgs : DrawEvent → List BatchMsg
  | .sent msg => [msg]
  | .refused msg _ => [msg]
  | _ => []

/-- The call adds an operation. -/
def WindowCall.addsOp : WindowCall → Bool
  | .clear .. | .present _ => false
  | _ => true

/-- Nothing is drawn in a window with number 0 when another one is drawn in, and a batch that
is sent because another window is drawn in, or because it is full, is queued. -/
def SendsBatch (answer : Nat → Int) (x : WindowState) (c : WindowCall) : Prop :=
  x.batch.drawings ≠ [] →
    (x.batch.id = 0 → c.id = 0) ∧
    (x.batch.id ≠ c.id ∨ (c.addsOp = true ∧ windowBatchMaxOps ≤ x.batch.ops.length) →
      (windowSendRaw answer x.pushes).1 = 0)

/-- What waits for a window. -/
def WindowState.waiting (x : WindowState) (id : Nat) : List Drawing :=
  if x.batch.id = id then x.batch.drawings else []

/-- Every window has got what was drawn in it, up to what waits, and every message fits. -/
structure BatchOk (x : WindowState) : Prop where
  arrives : ∀ id, ∃ carried, Arrives (x.log.filter (DrawEvent.isOf id)) carried (x.waiting id)
  room : x.batch.ops.length ≤ windowBatchMaxOps
  fits : ∀ e ∈ x.log, ∀ msg ∈ e.msgs, msg.Fits

/-! ## The steps of a call -/

variable {answer : Nat → Int} {x : WindowState}

theorem drawings_eq_nil {b : Batch} : b.drawings = [] ↔ b.ops = [] ∧ b.clearValid = false := by
  unfold Batch.drawings
  cases b.clearValid with
  | false => simp
  | true => simp

theorem msg_ops {b : Batch} (room : b.ops.length ≤ windowBatchMaxOps) : b.msg.ops = b.ops :=
  List.take_of_length_le room

theorem msg_drawings {b : Batch} (room : b.ops.length ≤ windowBatchMaxOps) :
    b.msg.drawings = b.drawings := by
  unfold BatchMsg.drawings Batch.drawings
  rw [msg_ops room]
  rfl

theorem msg_fits {b : Batch} (room : b.ops.length ≤ windowBatchMaxOps) : b.msg.Fits := by
  have size : b.msg.size = batchHeaderSize + drawOpSize * b.msg.ops.length := rfl
  refine ⟨?_, size, rfl⟩
  rw [size, msg_ops room]
  unfold windowBatchMaxOps windowMaxMsg batchHeaderSize drawOpSize at *
  omega

/-- What waits does not change with the number of the window where nothing waits. -/
theorem waiting_of_empty (empty : x.batch.drawings = []) (id : Nat) : x.waiting id = [] := by
  unfold WindowState.waiting
  rw [empty, ite_self]

theorem BatchOk.setId (ok : BatchOk x) (empty : x.batch.drawings = []) (id : Nat) :
    BatchOk { x with batch := { x.batch with id := id } } := by
  refine ⟨fun w => ?_, ok.room, ok.fits⟩
  obtain ⟨carried, arrives⟩ := ok.arrives w
  rw [waiting_of_empty empty] at arrives
  have none := waiting_of_empty (x := ⟨{ x.batch with id := id }, x.pushes, x.log⟩) empty w
  exact ⟨carried, none ▸ arrives⟩

/-- One more event of the window that is drawn in. -/
theorem BatchOk.event (ok : BatchOk x) {e : DrawEvent} {b : Batch} {n : Nat}
    (same : b.id = x.batch.id) (room : b.ops.length ≤ windowBatchMaxOps)
    (of : ∀ id, e.isOf id = decide (x.batch.id = id)) (fits : ∀ msg ∈ e.msgs, msg.Fits)
    (next : ∀ h carried, Arrives h carried x.batch.drawings →
      ∃ carried', Arrives (h ++ [e]) carried' b.drawings) :
    BatchOk ⟨b, n, x.log ++ [e]⟩ := by
  refine ⟨fun w => ?_, room, fun f mem => ?_⟩
  · obtain ⟨carried, arrives⟩ := ok.arrives w
    unfold WindowState.waiting at arrives ⊢
    rw [List.filter_append, same]
    by_cases here : x.batch.id = w
    · rw [if_pos here] at arrives ⊢
      rw [List.filter_cons_of_pos (by rw [of]; exact decide_eq_true here), List.filter_nil]
      exact next _ carried arrives
    · rw [if_neg here] at arrives ⊢
      rw [List.filter_cons_of_neg (by rw [of, decide_eq_false here]; exact Bool.false_ne_true),
        List.filter_nil, List.append_nil]
      exact ⟨carried, arrives⟩
  · rcases List.mem_append.1 mem with old | new
    · exact ok.fits f old
    · rw [List.mem_singleton.1 new]
      exact fits

/-- The batch is sent, or its caller is told. -/
theorem flush_ok (answer : Nat → Int) (told : Bool) (ok : BatchOk x)
    (sends : told = true ∨
      (x.batch.drawings ≠ [] → (windowSendRaw answer x.pushes).1 = 0)) :
    BatchOk (windowBatchFlush answer told x).2 ∧
      (windowBatchFlush answer told x).2.batch.drawings = [] ∧
      (windowBatchFlush answer told x).2.batch.id = x.batch.id := by
  unfold windowBatchFlush
  split
  next empty => exact ⟨ok, drawings_eq_nil.2 empty, rfl⟩
  next some =>
    have nonempty : x.batch.drawings ≠ [] := fun empty => some (drawings_eq_nil.1 empty)
    have fits := msg_fits ok.room
    rw [if_neg (Nat.not_lt.2 fits.1)]
    refine ⟨ok.event rfl (Nat.zero_le _) ?_ ?_ ?_, rfl, rfl⟩
    · intro id
      split
      · rfl
      · rfl
    · intro msg mem
      split at mem
      · rw [List.mem_singleton.1 mem]
        exact fits
      · rw [List.mem_singleton.1 mem]
        exact fits
    · intro h carried arrives
      rw [← msg_drawings ok.room, ← List.append_nil x.batch.msg.drawings] at arrives
      split
      · exact ⟨_, .sent _ arrives⟩
      next refused =>
        -- a batch that is not queued is lost for good, unless the caller was told
        rcases sends with rfl | sends
        · exact ⟨_, .refused _ arrives⟩
        · exact absurd (sends nonempty) refused

/-- After it the batch is that of the window, and as it was unless it was another one's. -/
theorem ensureId_ok (answer : Nat → Int) (id : Nat) (ok : BatchOk x)
    (sends : x.batch.drawings ≠ [] → (x.batch.id = 0 → id = 0) ∧
      (x.batch.id ≠ id → (windowSendRaw answer x.pushes).1 = 0)) :
    BatchOk (windowBatchEnsureId answer id x) ∧
      (windowBatchEnsureId answer id x).batch.id = id ∧
      ((windowBatchEnsureId answer id x).batch.drawings = [] ∨
        x.batch.id = id ∧ windowBatchEnsureId answer id x = x) := by
  unfold windowBatchEnsureId
  split
  next same =>
    by_cases empty : x.batch.drawings = []
    · exact ⟨ok.setId empty id, rfl, .inl empty⟩
    -- window 0 counts as no window, so its drawings would go out under the new id
    · obtain rfl : x.batch.id = id := by
        rcases same with zero | same
        · rw [zero, (sends empty).1 zero]
        · exact same
      exact ⟨ok, rfl, .inr ⟨rfl, rfl⟩⟩
  next other =>
    rw [not_or] at other
    obtain ⟨flushed, empty, -⟩ := flush_ok answer false ok
      (.inr fun some => (sends some).2 other.2)
    exact ⟨flushed.setId empty id, rfl, .inl empty⟩

/-- A full batch is sent before an operation is added to it. -/
theorem makeRoom_ok (answer : Nat → Int) {y : WindowState} {id : Nat} (ok : BatchOk y) (here : y.batch.id = id)
    (sends : windowBatchMaxOps ≤ y.batch.ops.length → y.batch.drawings ≠ [] →
      (windowSendRaw answer y.pushes).1 = 0) :
    BatchOk (if windowBatchMaxOps ≤ y.batch.ops.length then
        { (windowBatchFlush answer false y).2 with
          batch := { (windowBatchFlush answer false y).2.batch with id := id } }
      else y) ∧ (if windowBatchMaxOps ≤ y.batch.ops.length then
        { (windowBatchFlush answer false y).2 with
          batch := { (windowBatchFlush answer false y).2.batch with id := id } }
      else y).batch.id = id := by
  split
  next full =>
    obtain ⟨flushed, empty, -⟩ := flush_ok answer false ok (.inr (sends full))
    exact ⟨flushed.setId empty id, rfl⟩
  next => exact ⟨ok, here⟩

theorem pushOp_ok (ok : BatchOk x) {id : Nat} (op : DrawOp)
    (sends : x.batch.drawings ≠ [] → (x.batch.id = 0 → id = 0) ∧
      (x.batch.id ≠ id ∨ windowBatchMaxOps ≤ x.batch.ops.length →
        (windowSendRaw answer x.pushes).1 = 0)) :
    BatchOk (windowBatchPushOp answer id op x) := by
  obtain ⟨ensured, here, same⟩ := ensureId_ok answer id ok fun some =>
    ⟨(sends some).1, fun other => (sends some).2 (.inl other)⟩
  unfold windowBatchPushOp
  dsimp only
  rw [if_neg (by decide)]
  generalize windowBatchEnsureId answer id x = y at ensured here same
  have made := makeRoom_ok answer ensured here fun full some => by
    rcases same with empty | ⟨-, rfl⟩
    · exact absurd empty some
    · exact (sends some).2 (.inr full)
  generalize (if windowBatchMaxOps ≤ y.batch.ops.length then
        { (windowBatchFlush answer false y).2 with
          batch := { (windowBatchFlush answer false y).2.batch with id := id } }
      else y) = z at made
  split
  next room =>
    refine made.1.event (e := .drawn id (.op op)) rfl ?_ (fun w => ?_) (fun msg none => by cases none)
      fun h carried arrives => ?_
    · rw [List.length_append]
      exact room
    · rw [made.2]
      rfl
    · have drawings : Batch.drawings { z.batch with ops := z.batch.ops ++ [op] } =
          z.batch.drawings ++ [.op op] := by
        unfold Batch.drawings
        rw [List.map_append, List.append_assoc]
        rfl
      rw [drawings]
      exact ⟨carried, .drawn id _ arrives⟩
  next => exact made.1

/-- Every call that sends its batches keeps what was drawn. -/
theorem windowStep_ok (x : WindowState) (c : WindowCall) (ok : BatchOk x)
    (sends : SendsBatch answer x c) : BatchOk (windowStep answer x c) := by
  have pushes : c.addsOp = true → x.batch.drawings ≠ [] → (x.batch.id = 0 → c.id = 0) ∧
      (x.batch.id ≠ c.id ∨ windowBatchMaxOps ≤ x.batch.ops.length →
        (windowSendRaw answer x.pushes).1 = 0) := fun adds some =>
    ⟨(sends some).1, fun why => (sends some).2 (why.imp_right fun full => ⟨adds, full⟩)⟩
  have moves : x.batch.drawings ≠ [] → (x.batch.id = 0 → c.id = 0) ∧
      (x.batch.id ≠ c.id → (windowSendRaw answer x.pushes).1 = 0) := fun some =>
    ⟨(sends some).1, fun other => (sends some).2 (.inl other)⟩
  cases c with
  | rect id a b w h color filled => exact pushOp_ok ok _ (pushes rfl)
  | line id a b c d color => exact pushOp_ok ok _ (pushes rfl)
  | text id a b color text => exact pushOp_ok ok _ (pushes rfl)
  | button id a b w h text kind => exact pushOp_ok ok _ (pushes rfl)
  | clear id color =>
      obtain ⟨ensured, here, -⟩ := ensureId_ok answer id ok moves
      show BatchOk (windowClear answer id color x)
      unfold windowClear
      dsimp only
      generalize windowBatchEnsureId answer id x = y at ensured here
      refine ensured.event (e := .drawn id (.clear color)) rfl (Nat.zero_le _) (fun w => ?_)
        (fun msg none => by cases none)
        fun h carried arrives => ⟨carried, .cleared id color arrives (List.nil_sublist _)⟩
      rw [here]
      rfl
  | present id =>
      obtain ⟨ensured, here, -⟩ := ensureId_ok answer id ok moves
      show BatchOk (windowPresent answer id x).2
      unfold windowPresent
      dsimp only
      generalize windowBatchEnsureId answer id x = y at ensured here
      obtain ⟨flushed, empty, kept⟩ := flush_ok answer true ensured (.inl rfl)
      generalize windowBatchFlush answer true y = f at flushed empty kept
      obtain ⟨rc, z⟩ := f
      dsimp only at flushed empty kept ⊢
      split
      · exact flushed
      · dsimp only
        split
        · refine flushed.event (e := .presented id) rfl flushed.room (fun w => ?_)
            (fun msg none => by cases none) fun h carried arrives => ?_
          · rw [kept, here]
            rfl
          · rw [empty] at arrives ⊢
            exact ⟨carried, .presented id arrives⟩
        · exact ⟨flushed.arrives, flushed.room, flushed.fits⟩

theorem windowBoot_ok : BatchOk windowBoot := by
  refine ⟨fun id => ⟨[], ?_⟩, Nat.zero_le _, fun e none => by cases none⟩
  rw [waiting_of_empty rfl]
  exact .nil

/-- In a run whose calls send their batches, every window gets what was drawn in it, in order,
except that what waits may be dropped at a clear; all of it before the window is presented;
and no message is larger than it may be. -/
theorem window_draws_arrive (answer : Nat → Int) (calls : List WindowCall)
    (sends : AllSteps (windowStep answer) (SendsBatch answer) windowBoot calls) :
    (∀ id, ∃ carried waiting, Arrives
      ((run (windowStep answer) windowBoot calls).log.filter (DrawEvent.isOf id))
      carried waiting) ∧
    ∀ e ∈ (run (windowStep answer) windowBoot calls).log, ∀ msg ∈ e.msgs, msg.Fits := by
  have ok : BatchOk (run (windowStep answer) windowBoot calls) :=
    run_invariant windowStep_ok windowBoot_ok sends
  refine ⟨fun id => ?_, ok.fits⟩
  obtain ⟨carried, arrives⟩ := ok.arrives id
  exact ⟨carried, _, arrives⟩

/-- Two windows are drawn in by turns, one of them is presented, and every push succeeds. -/
def twoWindows : List WindowCall :=
  [.clear 1 0, .rect 1 0 0 8 8 1 true, .line 2 0 0 8 8 2, .present 1]

theorem window_draws_arrive_twoWindows :
    (∀ id, ∃ carried waiting, Arrives
      ((run (windowStep fun _ => 0) windowBoot twoWindows).log.filter (DrawEvent.isOf id))
      carried waiting) ∧
    ∀ e ∈ (run (windowStep fun _ => 0) windowBoot twoWindows).log, ∀ msg ∈ e.msgs, msg.Fits := by
  refine window_draws_arrive _ twoWindows ?_
  have sent : ∀ n, (windowSendRaw (fun _ => 0) n).1 = 0 := fun _ => rfl
  refine ⟨fun none => absurd rfl none, fun _ => ⟨fun zero => ?_, fun _ => sent _⟩,
    fun _ => ⟨fun zero => ?_, fun _ => sent _⟩, fun _ => ⟨fun zero => ?_, fun _ => sent _⟩, trivial⟩
  · cases zero
  · cases zero
  · cases zero

/-- An event before the last one. -/
theorem mem_of_mem_concat {h : List DrawEvent} {e f : DrawEvent} (mem : e ∈ h ++ [f])
    (ne : e ≠ f) : e ∈ h :=
  (List.mem_append.1 mem).resolve_right fun last => ne (List.mem_singleton.1 last)

/-- A batch that was refused without the caller being told has not arrived. -/
theorem not_arrives_of_refused {h : List DrawEvent} {msg : BatchMsg}
    (mem : DrawEvent.refused msg false ∈ h) (carried waiting : List Drawing) :
    ¬ Arrives h carried waiting := by
  intro arrives
  induction arrives with
  | nil => cases mem
  | drawn id d _ ih => exact ih (mem_of_mem_concat mem nofun)
  | cleared id color _ _ ih => exact ih (mem_of_mem_concat mem nofun)
  | sent msg _ ih => exact ih (mem_of_mem_concat mem nofun)
  -- the history has refusals too, but of these the caller was told
  | refused msg _ ih => exact ih (mem_of_mem_concat mem nofun)
  | presented id _ ih => exact ih (mem_of_mem_concat mem nofun)

/-- The desktop takes no message while a second window is drawn in: what was drawn in the
first one is lost, and every call returns 0. -/
theorem window_draws_lost :
    ¬ ∀ answer calls id, ∃ carried waiting, Arrives
      ((run (windowStep answer) windowBoot calls).log.filter (DrawEvent.isOf id))
      carried waiting := by
  intro all
  obtain ⟨carried, waiting, arrives⟩ := all (fun _ => -2) [.rect 1 0 0 8 8 1 true, .clear 2 0] 1
  exact not_arrives_of_refused (List.mem_cons_of_mem _ (List.mem_singleton_self _)) carried waiting
    arrives

end NTux.Desk
