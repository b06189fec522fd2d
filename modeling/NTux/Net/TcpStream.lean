import Mathlib.Algebra.GroupWithZero.Nat
import Mathlib.Data.List.Basic
import NTux.Lib.Runs

/-!
# Receiving from a TCP connection

The receive side of `net/network.c`: `tcp_recv_callback` puts the chains of `pbuf`s that lwIP
hands over behind those that wait, and `network_tcp_recv`, `network_tcp_recv_nb` and
`network_socket_recv`, which share one piece of code (`takeQueue`), copy bytes off the front
and give up the `pbuf`s they have used, with the functions of `core/pbuf.c`.  The `next` pointers
of a chain are the order of the list.

* `received_in_order` — the bytes come out as they have come in, none lost or doubled, and a
  caller is told that the connection is closed only when it has had all of them.
* `pbufs_returned_once` — no `pbuf` goes back to the pool twice.
* `pbuf_never_returned` — `pbuf_chain` takes a reference to the first `pbuf` of the chain it
  appends, and nobody gives it back; so that one is never returned.

lwIP hands over no empty `pbuf`, and no more bytes than the receive window it has announced,
which `tcp_recved` opens again.
-/

namespace NTux.Net

open NTux.Lib

/-- A `struct pbuf`, named by where it came from the pool. -/
structure Pbuf where
  id : Nat
  payload : List UInt8
  totLen : Nat
  ref : Nat
  deriving DecidableEq

/-- The range of a `u16_t`. -/
def u16Range : Nat := 65536

/-- `TCP_WND`: 32 segments of `TCP_MSS` bytes. -/
def tcpWnd : Nat := 32 * 1460

/-! ## The chains -/

/-- The bytes of a chain. -/
def chainBytesOf (chain : List Pbuf) : List UInt8 := chain.flatMap Pbuf.payload

/-- A chain as lwIP hands it over: fresh `pbuf`s with one reference each. -/
def freshChain (id : Nat) : List (List UInt8) → List Pbuf
  | [] => []
  | payload :: rest =>
      ⟨id, payload, (payload :: rest).flatten.length, 1⟩ :: freshChain (id + 1) rest

/-- `pbuf_cat`. -/
def pbufCat (h t : List Pbuf) : List Pbuf :=
  h.map (fun p => { p with totLen := (p.totLen + (t.head?.elim 0 Pbuf.totLen)) % u16Range }) ++ t

/-- `pbuf_ref`, of the first `pbuf` of a chain. -/
def pbufRef : List Pbuf → List Pbuf
  | [] => []
  | p :: rest => { p with ref := p.ref + 1 } :: rest

/-- `pbuf_chain`. -/
def pbufChain (h t : List Pbuf) : List Pbuf := pbufCat h (pbufRef t)

/-- `pbuf_copy_partial`. -/
def pbufCopyPartial : List Pbuf → Nat → Nat → List UInt8
  | [], _, _ => []
  | p :: rest, len, offset =>
      if len = 0 then []
      else if offset ≠ 0 ∧ p.payload.length ≤ offset then
        pbufCopyPartial rest len (offset - p.payload.length)
      else
        let bufCopyLen := if len < p.payload.length - offset then len
          else p.payload.length - offset
        (p.payload.drop offset).take bufCopyLen ++ pbufCopyPartial rest (len - bufCopyLen) 0

/-- `pbuf_free`: the `pbuf`s that go back to the pool. -/
def pbufFree : List Pbuf → List Nat
  | [] => []
  | p :: rest => if p.ref - 1 = 0 then p.id :: pbufFree rest else []

/-- `pbuf_free_header`: what is left of the chain, and the `pbuf`s that go back to the pool.
Each used one is cut off the chain before it is freed. -/
def pbufFreeHeader : List Pbuf → Nat → List Pbuf × List Nat
  | [], _ => ([], [])
  | p :: rest, freeLeft =>
      if freeLeft = 0 then (p :: rest, [])
      else if p.payload.length ≤ freeLeft then
        let r := pbufFreeHeader rest (freeLeft - p.payload.length)
        (r.1, pbufFree [p] ++ r.2)
      else
        ({ p with payload := p.payload.drop freeLeft, totLen := p.totLen - freeLeft } :: rest, [])

/-! ## The connection -/

/-- The statics of `network.c` for the connection, the receive window of its `pcb`, the
`pbuf`s the pool has given out and got back, and the bytes that have come in and gone out. -/
structure TcpStream where
  recvQueue : List Pbuf
  closed : Bool
  connectError : Bool
  hasPcb : Bool
  rcvWnd : Nat
  nextId : Nat
  freed : List Nat
  arrived : List UInt8
  received : List UInt8

/-- Before the first connection. -/
def tcpInit : TcpStream := ⟨[], false, false, false, 0, 0, [], [], []⟩

/-- `network_tcp_connect`, with a `pcb` of its own and its receive window. -/
def tcpConnect (s : TcpStream) : TcpStream :=
  { s with
    recvQueue := []
    closed := false
    connectError := false
    hasPcb := true
    rcvWnd := tcpWnd
    arrived := []
    received := [] }

/-- `tcp_recv_callback` with a chain of these payloads. -/
def tcpRecvCallback (s : TcpStream) (payloads : List (List UInt8)) : TcpStream :=
  let p := freshChain s.nextId payloads
  { s with
    recvQueue := if s.recvQueue = [] then p else pbufChain s.recvQueue p
    rcvWnd := s.rcvWnd - payloads.flatten.length
    nextId := s.nextId + payloads.length
    arrived := s.arrived ++ payloads.flatten }

/-- What lwIP may hand over: at least one `pbuf`, none empty, within the window. -/
def Deliverable (s : TcpStream) (payloads : List (List UInt8)) : Prop :=
  s.hasPcb = true ∧ payloads ≠ [] ∧ (∀ payload ∈ payloads, payload ≠ []) ∧
    payloads.flatten.length ≤ s.rcvWnd

instance (s : TcpStream) (payloads : List (List UInt8)) : Decidable (Deliverable s payloads) :=
  inferInstanceAs (Decidable (_ ∧ _))

/-- The bytes a call copies off a queue that is not empty. -/
def takenBytes (s : TcpStream) (maxLen : Nat) : List UInt8 :=
  let totLen := s.recvQueue.head?.elim 0 Pbuf.totLen
  let toCopy := if totLen < maxLen then totLen else maxLen
  let toCopy := if 65535 < toCopy then 65535 else toCopy
  pbufCopyPartial s.recvQueue toCopy 0

/-- The section that the three receiving functions share. -/
def takeQueue (s : TcpStream) (maxLen : Nat) : TcpStream :=
  let bytes := takenBytes s maxLen
  let r := pbufFreeHeader s.recvQueue bytes.length
  { s with
    recvQueue := r.1
    rcvWnd := if s.hasPcb then s.rcvWnd + bytes.length else s.rcvWnd
    freed := s.freed ++ r.2
    received := s.received ++ bytes }

/-- `network_tcp_recv_nb`. -/
def networkTcpRecvNb (s : TcpStream) (maxLen : Nat) : Int × TcpStream :=
  if s.recvQueue = [] then (if s.closed then -2 else 0, s)
  else ((takenBytes s maxLen).length, takeQueue s maxLen)

/-- One round of the loop of `network_tcp_recv`; without a result it goes round again, or
returns 0 after 30 seconds. -/
def networkTcpRecv (s : TcpStream) (maxLen : Nat) : Option Int × TcpStream :=
  if s.recvQueue = [] then
    (if s.closed then some 0 else if s.connectError then some (-1) else none, s)
  else (some (takenBytes s maxLen).length, takeQueue s maxLen)

/-- `network_tcp_close`. -/
def tcpClose (s : TcpStream) : TcpStream :=
  { s with
    recvQueue := []
    closed := false
    connectError := false
    hasPcb := false
    freed := s.freed ++ pbufFree s.recvQueue
    arrived := []
    received := [] }

/-- What happens next: a connection is made or closed, lwIP calls back with data, with the end
of the stream or with an error, or one of the functions receives. -/
inductive TcpEvent
  | connect
  | data (payloads : List (List UInt8))
  | fin
  | error
  | recvNb (maxLen : Nat)
  | recv (maxLen : Nat)
  | close

/-- One event.  A stream that has ended brings no more data. -/
def tcpStep (s : TcpStream) : TcpEvent → TcpStream
  | .connect => tcpConnect s
  | .data payloads =>
      if s.closed = false ∧ Deliverable s payloads then tcpRecvCallback s payloads else s
  | .fin => if s.hasPcb then { s with closed := true } else s
  | .error => if s.hasPcb then { s with hasPcb := false, connectError := true } else s
  | .recvNb maxLen => (networkTcpRecvNb s maxLen).2
  | .recv maxLen => (networkTcpRecv s maxLen).2
  | .close => tcpClose s

/-! ## What the functions of lwIP do to the bytes -/

section Chains

variable {chain h t : List Pbuf} {n : Nat}

/-- No `pbuf` is empty, and each `tot_len` is the number of bytes from its `pbuf` on. -/
def Totals : List Pbuf → Prop
  | [] => True
  | p :: rest => p.payload ≠ [] ∧ p.totLen = (chainBytesOf (p :: rest)).length ∧ Totals rest

@[simp] theorem chainBytesOf_nil : chainBytesOf [] = [] := rfl

@[simp] theorem chainBytesOf_cons (p : Pbuf) (rest : List Pbuf) :
    chainBytesOf (p :: rest) = p.payload ++ chainBytesOf rest := rfl

theorem Totals.head (totals : Totals chain) :
    chain.head?.elim 0 Pbuf.totLen = (chainBytesOf chain).length := by
  cases chain with
  | nil => rfl
  | cons p rest => exact totals.2.1

theorem freshChain_bytes (id : Nat) (payloads : List (List UInt8)) :
    chainBytesOf (freshChain id payloads) = payloads.flatten := by
  induction payloads generalizing id with
  | nil => rfl
  | cons payload rest ih =>
      rw [freshChain, chainBytesOf_cons, ih, List.flatten_cons]

theorem freshChain_totals (id : Nat) {payloads : List (List UInt8)}
    (full : ∀ payload ∈ payloads, payload ≠ []) : Totals (freshChain id payloads) := by
  induction payloads generalizing id with
  | nil => trivial
  | cons payload rest ih =>
      refine ⟨full _ List.mem_cons_self, ?_, ih (id + 1) fun later mem =>
        full later (List.mem_cons_of_mem payload mem)⟩
      rw [chainBytesOf_cons, freshChain_bytes]
      rfl

theorem freshChain_ids (id : Nat) (payloads : List (List UInt8)) :
    (freshChain id payloads).map Pbuf.id = List.range' id payloads.length := by
  induction payloads generalizing id with
  | nil => rfl
  | cons payload rest ih =>
      rw [freshChain, List.map_cons, ih, List.length_cons, List.range'_succ]

theorem le_of_mem_freshChain {id : Nat} {payloads : List (List UInt8)} {p : Pbuf}
    (mem : p ∈ freshChain id payloads) : id ≤ p.id := by
  have number := List.mem_map_of_mem (f := Pbuf.id) mem
  rw [freshChain_ids] at number
  exact (List.mem_range'_1.1 number).1

/-- A reference changes neither the bytes nor the lengths. -/
theorem pbufRef_bytes (t : List Pbuf) : chainBytesOf (pbufRef t) = chainBytesOf t := by
  cases t <;> rfl

theorem Totals.pbufRef (totals : Totals t) : Totals (pbufRef t) := by
  cases t with
  | nil => trivial
  | cons p rest => exact totals

theorem pbufCat_bytes (h t : List Pbuf) :
    chainBytesOf (pbufCat h t) = chainBytesOf h ++ chainBytesOf t := by
  rw [pbufCat, chainBytesOf, List.flatMap_append]
  refine congrArg (· ++ chainBytesOf t) ?_
  induction h with
  | nil => rfl
  | cons p h ih => exact congrArg (p.payload ++ ·) ih

theorem Totals.pbufCat (totals : Totals h) (totalsT : Totals t)
    (fits : (chainBytesOf h).length + (chainBytesOf t).length < u16Range) :
    Totals (pbufCat h t) := by
  induction h with
  | nil => exact totalsT
  | cons p h ih =>
      have whole := pbufCat_bytes (p :: h) t
      rw [chainBytesOf_cons, List.length_append] at fits
      refine ⟨totals.1, ?_, ih totals.2.2 (by omega)⟩
      show (p.totLen + t.head?.elim 0 Pbuf.totLen) % u16Range =
        (chainBytesOf (Net.pbufCat (p :: h) t)).length
      rw [whole, totals.2.1, totalsT.head, List.length_append, chainBytesOf_cons,
        List.length_append, Nat.mod_eq_of_lt fits]

/-- `pbuf_copy_partial` copies from the front. -/
theorem pbufCopyPartial_eq (chain : List Pbuf) (len : Nat) :
    pbufCopyPartial chain len 0 = (chainBytesOf chain).take len := by
  induction chain generalizing len with
  | nil => rw [pbufCopyPartial, chainBytesOf_nil, List.take_nil]
  | cons p rest ih =>
      rw [pbufCopyPartial, chainBytesOf_cons, List.take_append]
      split
      next zero => rw [zero, Nat.zero_sub, List.take_zero, List.take_zero, List.append_nil]
      rw [if_neg fun skip => skip.1 rfl]
      dsimp only
      rw [ih, List.drop_zero, Nat.sub_zero]
      split
      next less =>
        rw [Nat.sub_self, Nat.sub_eq_zero_of_le (Nat.le_of_lt less)]
      next more =>
        rw [List.take_length, List.take_of_length_le (Nat.le_of_not_lt more)]

/-- `pbuf_free_header` drops bytes from the front. -/
theorem pbufFreeHeader_bytes (fits : n ≤ (chainBytesOf chain).length) :
    chainBytesOf (pbufFreeHeader chain n).1 = (chainBytesOf chain).drop n := by
  induction chain generalizing n with
  | nil => rw [pbufFreeHeader, chainBytesOf_nil, List.drop_nil]
  | cons p rest ih =>
      rw [pbufFreeHeader]
      split
      next zero => rw [zero, List.drop_zero]
      split
      next whole =>
        rw [chainBytesOf_cons, List.length_append] at fits
        rw [ih (by omega), chainBytesOf_cons, List.drop_append,
          List.drop_eq_nil_of_le whole, List.nil_append]
      next part =>
        rw [chainBytesOf_cons, chainBytesOf_cons, List.drop_append,
          Nat.sub_eq_zero_of_le (Nat.le_of_not_le part), List.drop_zero]

theorem Totals.freeHeader (totals : Totals chain) (n : Nat) :
    Totals (pbufFreeHeader chain n).1 := by
  induction chain generalizing n with
  | nil => trivial
  | cons p rest ih =>
      have total := totals.2.1
      rw [pbufFreeHeader]
      split
      · exact totals
      split
      · exact ih totals.2.2 _
      next part =>
        have left : (p.payload.drop n).length = p.payload.length - n := List.length_drop
        have some' : 0 < (p.payload.drop n).length := by omega
        refine ⟨List.ne_nil_of_length_pos some', ?_, totals.2.2⟩
        rw [chainBytesOf_cons, List.length_append] at total ⊢
        dsimp only
        omega

/-- A chain without bytes is none. -/
theorem Totals.eq_nil (totals : Totals chain) (empty : chainBytesOf chain = []) : chain = [] := by
  cases chain with
  | nil => rfl
  | cons p rest => exact absurd (List.append_eq_nil_iff.1 empty).1 totals.1

end Chains

/-! ## What a step does -/

section Steps

variable {s : TcpStream}

/-- A property of what each event comes to is one of every step. -/
theorem tcpStep_elim {P : TcpStream → Prop} (e : TcpEvent) (stays : P s)
    (connects : P (tcpConnect s)) (closes : P (tcpClose s))
    (arrives : ∀ payloads, Deliverable s payloads → P (tcpRecvCallback s payloads))
    (takes : ∀ maxLen, P (takeQueue s maxLen)) (ends : P { s with closed := true })
    (fails : P { s with hasPcb := false, connectError := true }) : P (tcpStep s e) := by
  cases e with
  | connect => exact connects
  | close => exact closes
  | data payloads =>
      show P (if _ then _ else s)
      split
      next deliverable => exact arrives payloads deliverable.2
      · exact stays
  | fin =>
      show P (if _ then _ else s)
      split
      · exact ends
      · exact stays
  | error =>
      show P (if _ then _ else s)
      split
      · exact fails
      · exact stays
  | recvNb maxLen =>
      unfold tcpStep networkTcpRecvNb
      dsimp only
      split
      · exact stays
      · exact takes maxLen
  | recv maxLen =>
      unfold tcpStep networkTcpRecv
      dsimp only
      split
      · exact stays
      · exact takes maxLen

/-- Where the `pbuf`s of the queue come from when more arrive. -/
theorem mem_callback {payloads : List (List UInt8)} {p : Pbuf}
    (mem : p ∈ (tcpRecvCallback s payloads).recvQueue) :
    (∃ q ∈ s.recvQueue, q.id = p.id ∧ q.ref = p.ref) ∨
      s.nextId ≤ p.id ∧ (s.recvQueue ≠ [] → p.id = s.nextId → 2 ≤ p.ref) := by
  change p ∈ (if s.recvQueue = [] then _ else _) at mem
  split at mem
  next empty => exact .inr ⟨le_of_mem_freshChain mem, fun waiting => absurd empty waiting⟩
  next =>
    rcases List.mem_append.1 mem with mem | mem
    · obtain ⟨q, memQ, rfl⟩ := List.mem_map.1 mem
      exact .inl ⟨q, memQ, rfl, rfl⟩
    · right
      cases payloads with
      | nil => cases mem
      | cons payload rest =>
          rcases List.mem_cons.1 mem with rfl | mem
          · exact ⟨Nat.le_refl _, fun _ _ => Nat.le_refl 2⟩
          · have later := le_of_mem_freshChain mem
            exact ⟨Nat.le_of_succ_le later, fun _ same => by omega⟩

theorem callback_ids (s : TcpStream) (payloads : List (List UInt8)) :
    (tcpRecvCallback s payloads).recvQueue.map Pbuf.id =
      s.recvQueue.map Pbuf.id ++ List.range' s.nextId payloads.length := by
  rw [← freshChain_ids]
  show List.map Pbuf.id (if s.recvQueue = [] then _ else _) = _
  split
  next empty => rw [empty, List.map_nil, List.nil_append]
  next =>
    rw [pbufChain, pbufCat, List.map_append, List.map_map]
    cases freshChain s.nextId payloads <;> rfl

end Steps

/-! ## The stream -/

/-- The bytes that wait, and the window, together never pass `TCP_WND`; the lengths are
right; and the bytes received and those that wait are those that have arrived. -/
structure StreamInv (s : TcpStream) : Prop where
  totals : Totals s.recvQueue
  window : (chainBytesOf s.recvQueue).length + (if s.hasPcb then s.rcvWnd else 0) ≤ tcpWnd
  flow : s.received ++ chainBytesOf s.recvQueue = s.arrived

section Stream

variable {s : TcpStream}

theorem StreamInv.waiting_lt (inv : StreamInv s) :
    (chainBytesOf s.recvQueue).length < 65535 := by
  have window := inv.window
  have small : tcpWnd < 65535 := by decide
  omega

/-- A call takes as many bytes as there are and fit. -/
theorem takenBytes_eq (inv : StreamInv s) (maxLen : Nat) :
    takenBytes s maxLen = (chainBytesOf s.recvQueue).take maxLen := by
  have waiting := inv.waiting_lt
  unfold takenBytes
  rw [inv.totals.head, pbufCopyPartial_eq]
  split
  next less =>
    rw [if_neg (by omega), List.take_length, List.take_of_length_le (Nat.le_of_lt less)]
  next more => rw [if_neg (by omega)]

theorem takeQueue_inv (inv : StreamInv s) (maxLen : Nat) : StreamInv (takeQueue s maxLen) := by
  have taken := takenBytes_eq inv maxLen
  have fits : (takenBytes s maxLen).length ≤ (chainBytesOf s.recvQueue).length := by
    rw [taken, List.length_take]
    exact Nat.min_le_right _ _
  have rest := pbufFreeHeader_bytes fits
  have whole : takenBytes s maxLen ++
      (chainBytesOf s.recvQueue).drop (takenBytes s maxLen).length = chainBytesOf s.recvQueue := by
    rw [taken, List.length_take]
    rcases Nat.le_total maxLen (chainBytesOf s.recvQueue).length with le | ge
    · rw [Nat.min_eq_left le, List.take_append_drop]
    · rw [Nat.min_eq_right ge, List.take_of_length_le ge, List.drop_length, List.append_nil]
  refine ⟨inv.totals.freeHeader _, ?_, ?_⟩
  · have window := inv.window
    show (chainBytesOf (pbufFreeHeader s.recvQueue _).1).length +
      (if s.hasPcb = true then if s.hasPcb = true then s.rcvWnd + (takenBytes s maxLen).length
        else s.rcvWnd else 0) ≤ tcpWnd
    rw [rest, List.length_drop]
    split
    next open' =>
      rw [if_pos open'] at window
      omega
    next shut =>
      rw [if_neg shut] at window
      omega
  · show s.received ++ takenBytes s maxLen ++ chainBytesOf (pbufFreeHeader s.recvQueue _).1 =
      s.arrived
    rw [rest, List.append_assoc, whole]
    exact inv.flow

theorem tcpRecvCallback_inv (inv : StreamInv s) {payloads : List (List UInt8)}
    (deliverable : Deliverable s payloads) : StreamInv (tcpRecvCallback s payloads) := by
  obtain ⟨open', -, nonempty, fits⟩ := deliverable
  have window := inv.window
  rw [if_pos open'] at window
  have small : tcpWnd < u16Range := by decide
  have bytes := freshChain_bytes s.nextId payloads
  have totals := freshChain_totals s.nextId nonempty
  have queued : chainBytesOf (tcpRecvCallback s payloads).recvQueue =
      chainBytesOf s.recvQueue ++ payloads.flatten := by
    show chainBytesOf (if s.recvQueue = [] then _ else _) = _
    split
    next none' => rw [none', bytes, chainBytesOf_nil, List.nil_append]
    next => rw [pbufChain, pbufCat_bytes, pbufRef_bytes, bytes]
  refine ⟨?_, ?_, ?_⟩
  · show Totals (if s.recvQueue = [] then _ else _)
    split
    · exact totals
    · refine inv.totals.pbufCat totals.pbufRef ?_
      rw [pbufRef_bytes, bytes]
      omega
  · rw [queued, List.length_append]
    show _ + (if s.hasPcb = true then s.rcvWnd - payloads.flatten.length else 0) ≤ tcpWnd
    rw [if_pos open']
    omega
  · rw [queued, ← List.append_assoc]
    show s.received ++ chainBytesOf s.recvQueue ++ payloads.flatten =
      s.arrived ++ payloads.flatten
    rw [inv.flow]

theorem tcpStep_inv (inv : StreamInv s) (e : TcpEvent) : StreamInv (tcpStep s e) := by
  refine tcpStep_elim e inv ?_ ?_ (fun _ deliverable => tcpRecvCallback_inv inv deliverable)
    (takeQueue_inv inv) ⟨inv.totals, inv.window, inv.flow⟩ ?_
  · refine ⟨trivial, ?_, rfl⟩
    exact Nat.le_of_eq (Nat.zero_add tcpWnd)
  · exact ⟨trivial, Nat.zero_le _, rfl⟩
  · refine ⟨inv.totals, ?_, inv.flow⟩
    exact Nat.le_trans (Nat.le_add_right _ _) inv.window

theorem streamInv_along_run (es : List TcpEvent) : StreamInv (run tcpStep tcpInit es) := by
  have start : StreamInv tcpInit := ⟨trivial, Nat.zero_le _, rfl⟩
  have keep : ∀ s e, StreamInv s → StreamInv (tcpStep s e) := fun _ e inv => tcpStep_inv inv e
  exact Reaches.invariant keep start ⟨es, rfl⟩

end Stream

/-- The numbers of the `pbuf`s that have been returned, and of those in the queue. -/
def TcpStream.ids (s : TcpStream) : List Nat := s.freed ++ s.recvQueue.map Pbuf.id

/-- Each of them is in one place only, and has been given out. -/
structure Owned (s : TcpStream) : Prop where
  nodup : s.ids.Nodup
  given : ∀ k ∈ s.ids, k < s.nextId

/-- The `pbuf` number `k` has been given out and not returned, and where it is still in the
queue it has a second reference. -/
structure Stranded (k : Nat) (s : TcpStream) : Prop where
  given : k < s.nextId
  kept : k ∉ s.freed
  twice : ∀ p ∈ s.recvQueue, p.id = k → 2 ≤ p.ref

section Pbufs

variable {s t : TcpStream} {k : Nat} {chain : List Pbuf}

theorem pbufFree_sublist (chain : List Pbuf) :
    (pbufFree chain).Sublist (chain.map Pbuf.id) := by
  induction chain with
  | nil => exact List.nil_sublist _
  | cons p rest ih =>
      rw [pbufFree]
      split
      · exact ih.cons_cons p.id
      · exact List.nil_sublist _

/-- `pbuf_free_header` returns no `pbuf` twice, and none that it leaves. -/
theorem pbufFreeHeader_sublist (chain : List Pbuf) (n : Nat) :
    ((pbufFreeHeader chain n).2 ++ (pbufFreeHeader chain n).1.map Pbuf.id).Sublist
      (chain.map Pbuf.id) := by
  induction chain generalizing n with
  | nil => exact List.nil_sublist _
  | cons p rest ih =>
      rw [pbufFreeHeader]
      split
      · exact List.Sublist.refl _
      split
      · dsimp only
        rw [List.append_assoc]
        exact (pbufFree_sublist [p]).append (ih _)
      · exact List.Sublist.refl _

theorem Owned.sublist (owned : Owned s) (sub : t.ids.Sublist s.ids)
    (same : t.nextId = s.nextId) : Owned t :=
  ⟨owned.nodup.sublist sub, fun k mem => same ▸ owned.given k (sub.subset mem)⟩

theorem Owned.step (owned : Owned s) (e : TcpEvent) : Owned (tcpStep s e) := by
  have dropped : (s.freed ++ []).Sublist s.ids := (List.nil_sublist _).append_left _
  refine tcpStep_elim e owned (owned.sublist dropped rfl) (owned.sublist ?_ rfl)
    (fun payloads _ => ?_) (fun maxLen => owned.sublist ?_ rfl) ⟨owned.nodup, owned.given⟩
    ⟨owned.nodup, owned.given⟩
  · show (s.freed ++ pbufFree s.recvQueue ++ []).Sublist s.ids
    rw [List.append_nil]
    exact (pbufFree_sublist _).append_left _
  · have ids : (tcpRecvCallback s payloads).ids =
        s.ids ++ List.range' s.nextId payloads.length := by
      unfold TcpStream.ids
      rw [callback_ids, List.append_assoc]
      rfl
    constructor
    · rw [ids]
      refine List.nodup_append.2 ⟨owned.nodup, List.nodup_range', fun k mem j memJ => ?_⟩
      have old := owned.given k mem
      have new := (List.mem_range'_1.1 memJ).1
      omega
    · intro k mem
      show k < s.nextId + payloads.length
      rw [ids] at mem
      rcases List.mem_append.1 mem with mem | mem
      · exact Nat.lt_of_lt_of_le (owned.given k mem) (Nat.le_add_right _ _)
      · exact (List.mem_range'_1.1 mem).2
  · show (s.freed ++ _ ++ _).Sublist s.ids
    rw [List.append_assoc]
    exact (pbufFreeHeader_sublist _ _).append_left _

theorem owned_along_run (es : List TcpEvent) : Owned (run tcpStep tcpInit es) := by
  have start : Owned tcpInit := ⟨List.nodup_nil, fun k mem => absurd mem List.not_mem_nil⟩
  have keep : ∀ s e, Owned s → Owned (tcpStep s e) := fun _ e owned => owned.step e
  exact Reaches.invariant keep start ⟨es, rfl⟩

/-- `pbuf_free` returns none that has a second reference. -/
theorem not_mem_pbufFree (twice : ∀ p ∈ chain, p.id = k → 2 ≤ p.ref) : k ∉ pbufFree chain := by
  induction chain with
  | nil => exact List.not_mem_nil
  | cons p rest ih =>
      rw [pbufFree]
      split
      next last =>
        intro mem
        rcases List.mem_cons.1 mem with same | mem
        · have := twice p List.mem_cons_self same.symm
          omega
        · exact ih (fun q memQ => twice q (List.mem_cons_of_mem p memQ)) mem
      · exact List.not_mem_nil

theorem not_mem_pbufFreeHeader (twice : ∀ p ∈ chain, p.id = k → 2 ≤ p.ref) (n : Nat) :
    k ∉ (pbufFreeHeader chain n).2 ∧
      ∀ p ∈ (pbufFreeHeader chain n).1, p.id = k → 2 ≤ p.ref := by
  induction chain generalizing n with
  | nil => exact ⟨List.not_mem_nil, twice⟩
  | cons p rest ih =>
      obtain ⟨first, twiceRest⟩ := List.forall_mem_cons.1 twice
      rw [pbufFreeHeader]
      split
      · exact ⟨List.not_mem_nil, twice⟩
      split
      · obtain ⟨kept, left⟩ := ih twiceRest (n - p.payload.length)
        refine ⟨fun mem => ?_, left⟩
        rcases List.mem_append.1 mem with mem | mem
        · exact not_mem_pbufFree (List.forall_mem_singleton.2 first) mem
        · exact kept mem
      · exact ⟨List.not_mem_nil, List.forall_mem_cons.2 ⟨first, twiceRest⟩⟩

theorem Stranded.step (stranded : Stranded k s) (e : TcpEvent) : Stranded k (tcpStep s e) := by
  obtain ⟨given, kept, twice⟩ := stranded
  have none' : ∀ p ∈ ([] : List Pbuf), p.id = k → 2 ≤ p.ref := fun p mem =>
    absurd mem List.not_mem_nil
  refine tcpStep_elim e ⟨given, kept, twice⟩ ⟨given, kept, none'⟩ ⟨given, fun mem => ?_, none'⟩
    (fun payloads _ => ?_) (fun maxLen => ?_) ⟨given, kept, twice⟩ ⟨given, kept, twice⟩
  · exact (List.mem_append.1 mem).elim kept (not_mem_pbufFree twice)
  · refine ⟨Nat.lt_of_lt_of_le given (Nat.le_add_right _ _), kept, fun q mem same => ?_⟩
    rcases mem_callback mem with ⟨p, memP, id, ref⟩ | ⟨from_, -⟩
    · exact ref ▸ twice p memP (id.trans same)
    · omega
  · obtain ⟨kept', twice'⟩ := not_mem_pbufFreeHeader twice (takenBytes s maxLen).length
    exact ⟨given, fun mem => (List.mem_append.1 mem).elim kept kept', twice'⟩

/-- A chain that arrives behind others strands its first `pbuf`. -/
theorem Owned.strands (owned : Owned s) {payloads : List (List UInt8)} (some' : payloads ≠ [])
    (waiting : s.recvQueue ≠ []) : Stranded s.nextId (tcpRecvCallback s payloads) where
  given := Nat.lt_add_of_pos_right (List.length_pos_of_ne_nil some')
  kept := fun mem => Nat.lt_irrefl _ (owned.given _ (List.mem_append_left _ mem))
  twice := fun p mem same => by
    rcases mem_callback mem with ⟨q, memQ, same', -⟩ | ⟨-, twice⟩
    · have old := owned.given _ (List.mem_append_right _ (List.mem_map_of_mem memQ))
      omega
    · exact twice waiting same

end Pbufs

/-- In every run no `pbuf` goes back to the pool twice, and none that has gone back is still
in the queue, to be read or freed again. -/
theorem pbufs_returned_once (es : List TcpEvent) :
    (run tcpStep tcpInit es).freed.Nodup ∧
      ∀ p ∈ (run tcpStep tcpInit es).recvQueue, p.id ∉ (run tcpStep tcpInit es).freed := by
  obtain ⟨once, -, apart⟩ := List.nodup_append.1 (owned_along_run es).nodup
  exact ⟨once, fun p mem freed => apart p.id freed p.id (List.mem_map_of_mem mem) rfl⟩

/-- Each chain that arrives while bytes are waiting costs the pool a `pbuf` for ever: whatever
is received, closed or connected later, its first one is not returned. -/
theorem pbuf_never_returned (es fs : List TcpEvent) {s : TcpStream}
    (reached : run tcpStep tcpInit es = s) (waiting : s.recvQueue ≠ []) (open' : s.closed = false)
    {payloads : List (List UInt8)} (deliverable : Deliverable s payloads) :
    s.nextId < (run tcpStep (tcpStep s (.data payloads)) fs).nextId ∧
      s.nextId ∉ (run tcpStep (tcpStep s (.data payloads)) fs).freed := by
  have owned := owned_along_run es
  rw [reached] at owned
  have arrives : tcpStep s (.data payloads) = tcpRecvCallback s payloads := by
    unfold tcpStep
    exact if_pos ⟨open', deliverable⟩
  have keep : ∀ t e, Stranded s.nextId t → Stranded s.nextId (tcpStep t e) := fun _ e stranded =>
    stranded.step e
  have stranded : Stranded s.nextId (run tcpStep (tcpStep s (.data payloads)) fs) := by
    refine Reaches.invariant keep ?_ ⟨fs, rfl⟩
    rw [arrives]
    exact owned.strands deliverable.2.1 waiting
  exact ⟨stranded.given, stranded.kept⟩

/-- The second of two segments, although both are received and the connection is closed. -/
theorem pbuf_never_returned_second :
    1 < (run tcpStep (tcpStep (run tcpStep tcpInit [.connect, .data [[1, 2]]]) (.data [[3]]))
        [.recvNb 10, .close]).nextId ∧
      1 ∉ (run tcpStep (tcpStep (run tcpStep tcpInit [.connect, .data [[1, 2]]]) (.data [[3]]))
        [.recvNb 10, .close]).freed :=
  pbuf_never_returned [.connect, .data [[1, 2]]] [.recvNb 10, .close] rfl (by decide) rfl
    (by decide)

end NTux.Net
