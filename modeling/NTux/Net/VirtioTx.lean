import Mathlib.Data.List.TakeDrop
import Mathlib.Data.Nat.Prime.Basic
import NTux.Lib.Runs
import NTux.Lib.WrapCounter

/-!
# Sending through virtio-net

The transmit half of `net/nic/virtio_net.c`: `virtio_net_send_packet` and the device that
empties its queue meanwhile.  The driver uses the descriptors in pairs, one for a header and
one for a packet, and takes pair `n mod (q_size / 2)` for the packet number `n`; it never looks
at what the device says it has used, only at how many.  The device takes the entries of the
available ring in order and reads a packet's descriptors, header and buffer at any time up to
the moment it counts the packet as used.

lwIP sends with the lock of the network held, one packet at a time.  The steps of a call and
those of the device come in any order (`TxStep`); still what is on the wire is what was sent
(`wire_along_run`).  All indices are `uint16_t`, and queue sizes are powers of two.
-/

namespace NTux.Net

open NTux.Lib

/-- The range of a `uint16_t`. -/
def idxRange : Nat := 65536

/-- `VRING_DESC_F_NEXT`. -/
def vringDescFNext : Nat := 1

/-- `sizeof(struct virtio_net_hdr)`. -/
def virtioNetHdrSize : Nat := 10

/-- The number of looks at the used index before a call gives up. -/
def txTimeout : Nat := 10000000

/-- What a descriptor of the transmit queue points at: `tx_hdr[slot]` or
`tx_buffers[slot]`. -/
inductive TxAddr
  | hdr (slot : Nat)
  | buffer (slot : Nat)
  deriving DecidableEq

/-- `struct vq_desc`. -/
structure VqDesc where
  addr : TxAddr
  len : Nat
  flags : Nat
  next : Nat

/-- Where a call of `virtio_net_send_packet` stands: none is going on; it waits for room, with
so many looks left; it has found room; the packet is in place; the index is raised. -/
inductive TxPhase
  | idle
  | waiting (data : List UInt8) (timeout : Nat)
  | filling (data : List UInt8)
  | filled (data : List UInt8)
  | published (data : List UInt8)

/-- The transmit queue, its buffers, the call that is going on, and what has been put on the
wire.  `sent` are the packets whose index has been raised, `returned` the calls that are over
with what they returned. -/
structure VirtioTx where
  qSize : Nat
  lastAvailIdx : Nat
  desc : Nat → VqDesc
  availIdx : Nat
  availRing : Nat → Nat
  usedIdx : Nat
  txHdr : Nat → List UInt8
  txBuffers : Nat → List UInt8
  phase : TxPhase
  wire : List (List UInt8)
  sent : List (List UInt8)
  returned : List (List UInt8 × Int)

/-- The transmit queue after `virtqueue_init`, the ring and the buffers being zero. -/
def txInit (qSize : Nat) : VirtioTx where
  qSize := qSize
  lastAvailIdx := 0
  desc _ := ⟨.hdr 0, 0, 0, 0⟩
  availIdx := 0
  availRing _ := 0
  usedIdx := 0
  txHdr _ := List.replicate virtioNetHdrSize 0
  txBuffers _ := List.replicate 2048 0
  phase := .idle
  wire := []
  sent := []
  returned := []

/-- The packet of `send_len` bytes: at least 60. -/
def padded (data : List UInt8) : List UInt8 := data ++ List.replicate (60 - data.length) 0

/-- The condition of the wait loop. -/
def txFull (s : VirtioTx) : Bool :=
  s.qSize / 2 ≤ (s.lastAvailIdx + idxRange - s.usedIdx) % idxRange

/-- The stores between the wait loop and the first fence. -/
def txFill (s : VirtioTx) (data : List UInt8) : VirtioTx :=
  let head := s.lastAvailIdx % (s.qSize / 2)
  let dIdx := head * 2
  let packet := padded data
  { s with
    txHdr := Function.update s.txHdr head (List.replicate virtioNetHdrSize 0)
    desc := Function.update
      (Function.update s.desc dIdx ⟨.hdr head, virtioNetHdrSize, vringDescFNext, dIdx + 1⟩)
      (dIdx + 1) ⟨.buffer head, packet.length, 0, (s.desc (dIdx + 1)).next⟩
    txBuffers := Function.update s.txBuffers head
      (packet ++ (s.txBuffers head).drop packet.length)
    availRing := Function.update s.availRing (s.availIdx % s.qSize) dIdx
    phase := .filled data }

/-- The bytes of a chain of descriptors, as the device reads them. -/
def chainBytes (s : VirtioTx) : Nat → Nat → List UInt8
  | 0, _ => []
  | fuel + 1, d =>
      let bytes := match (s.desc d).addr with
        | .hdr slot => (s.txHdr slot).take (s.desc d).len
        | .buffer slot => (s.txBuffers slot).take (s.desc d).len
      bytes ++ if (s.desc d).flags % 2 = vringDescFNext then chainBytes s fuel (s.desc d).next
        else []

/-- The device puts the next packet on the wire, without its header, and counts it as used. -/
def transmit (s : VirtioTx) : VirtioTx :=
  if s.usedIdx = s.availIdx then s
  else
    let chain := chainBytes s s.qSize (s.availRing (s.usedIdx % s.qSize))
    { s with
      wire := s.wire ++ [chain.drop virtioNetHdrSize]
      usedIdx := (s.usedIdx + 1) % idxRange }

/-- What happens next: `virtio_net_send_packet` is called, the call goes on, or the device
transmits. -/
inductive TxStep
  | send (data : List UInt8)
  | proceed
  | transmit

/-- A step of the call that is going on. -/
def sendProceed (s : VirtioTx) : VirtioTx :=
  match s.phase with
  | .idle => s
  | .waiting data timeout =>
      if txFull s then
        if timeout - 1 = 0 then { s with phase := .idle, returned := s.returned ++ [(data, -1)] }
        else { s with phase := .waiting data (timeout - 1) }
      else { s with phase := .filling data }
  | .filling data => txFill s data
  | .filled data =>
      { s with
        availIdx := (s.availIdx + 1) % idxRange
        sent := s.sent ++ [data]
        phase := .published data }
  | .published data =>
      { s with
        lastAvailIdx := (s.lastAvailIdx + 1) % idxRange
        phase := .idle
        returned := s.returned ++ [(data, 0)] }

/-- One step. -/
def txStep (s : VirtioTx) : TxStep → VirtioTx
  | .send data =>
      match s.phase with
      | .idle =>
          if 1514 < data.length then
            { s with phase := .idle, returned := s.returned ++ [(data, -1)] }
          else { s with phase := .waiting data txTimeout }
      | _ => s
  | .proceed => sendProceed s
  | .transmit => transmit s

/-! ## The invariant -/

/-- The packet number `j` is in its slot, with its descriptors and its entry of the available
ring. -/
structure InPlace (s : VirtioTx) (j : Nat) (data : List UInt8) : Prop where
  entry : s.availRing (j % s.qSize) = j % (s.qSize / 2) * 2
  header : s.desc (j % (s.qSize / 2) * 2) =
    ⟨.hdr (j % (s.qSize / 2)), virtioNetHdrSize, vringDescFNext, j % (s.qSize / 2) * 2 + 1⟩
  packet : ∃ next, s.desc (j % (s.qSize / 2) * 2 + 1) =
    ⟨.buffer (j % (s.qSize / 2)), (padded data).length, 0, next⟩
  headerBytes : (s.txHdr (j % (s.qSize / 2))).length = virtioNetHdrSize
  bytes : (s.txBuffers (j % (s.qSize / 2))).take (padded data).length = padded data

/-- The packet the driver is placing, and whether its place is free and filled. -/
def Placing (s : VirtioTx) : Prop :=
  match s.phase with
  | .filling _ => s.sent.length < s.wire.length + s.qSize / 2
  | .filled data => s.sent.length < s.wire.length + s.qSize / 2 ∧ InPlace s s.sent.length data
  | .published data => s.sent.getLast? = some data
  | _ => True

/-- The packets the call has counted in `last_avail_idx`. -/
def countedSent (s : VirtioTx) : Nat :=
  match s.phase with
  | .published _ => s.sent.length - 1
  | _ => s.sent.length

/-- The packets of the calls that have returned 0. -/
def acceptedPackets (s : VirtioTx) : List (List UInt8) :=
  (s.returned.filter fun call => call.2 = 0).map Prod.fst

/-- The indices count the packets sent and transmitted; what is on the wire are the first
packets sent; and the others are in their places. -/
structure TxInv (q : Nat) (s : VirtioTx) : Prop where
  size : s.qSize = q
  divides : s.qSize ∣ idxRange
  used : s.usedIdx = s.wire.length % idxRange
  avail : s.availIdx = s.sent.length % idxRange
  last : s.lastAvailIdx = countedSent s % idxRange
  order : s.wire = (s.sent.take s.wire.length).map padded
  room : s.sent.length ≤ s.wire.length + s.qSize / 2
  flight : ∀ j data, s.wire.length ≤ j → s.sent[j]? = some data → InPlace s j data
  placing : Placing s
  answers : acceptedPackets s = s.sent.take (countedSent s)

section Places

variable {s : VirtioTx} {j : Nat} {data : List UInt8}

theorem half_divides {q : Nat} (divides : q ∣ idxRange) (pos : 0 < q / 2) :
    q / 2 ∣ idxRange ∧ 2 ≤ q := by
  have power : q ∣ 2 ^ 16 := divides
  obtain ⟨k, -, rfl⟩ := (Nat.dvd_prime_pow Nat.prime_two).1 power
  cases k with
  | zero => exact absurd pos (by decide)
  | succ k =>
      have double : 2 ^ (k + 1) = 2 ^ k * 2 := Nat.pow_succ ..
      refine ⟨(Dvd.intro 2 ?_).trans divides, ?_⟩
      · rw [double, Nat.mul_div_cancel _ (by decide)]
      · rw [double]
        have := Nat.two_pow_pos k
        omega

theorem TxInv.wire_le {q : Nat} (inv : TxInv q s) : s.wire.length ≤ s.sent.length := by
  have lengths := congrArg List.length inv.order
  rw [List.length_map, List.length_take] at lengths
  omega

/-- The indices do not catch up with each other by wrapping. -/
theorem TxInv.near {q : Nat} (inv : TxInv q s) :
    s.sent.length - s.wire.length < idxRange := by
  have room := inv.room
  have size : s.qSize ≤ idxRange := Nat.le_of_dvd (by decide) inv.divides
  have : 0 < idxRange := by decide
  omega

/-- What the device reads of a packet that is in place. -/
theorem InPlace.chain (place : InPlace s j data) (two : 2 ≤ s.qSize) :
    (chainBytes s s.qSize (s.availRing (j % s.qSize))).drop virtioNetHdrSize = padded data := by
  obtain ⟨fuel, eq⟩ : ∃ fuel, s.qSize = fuel + 2 := ⟨s.qSize - 2, by omega⟩
  obtain ⟨next, packet⟩ := place.packet
  have header : (s.txHdr (j % (s.qSize / 2))).take virtioNetHdrSize =
      s.txHdr (j % (s.qSize / 2)) := List.take_of_length_le place.headerBytes.le
  have tail : chainBytes s (fuel + 1) (j % (s.qSize / 2) * 2 + 1) = padded data := by
    rw [chainBytes, packet]
    dsimp only
    rw [if_neg (by decide), List.append_nil]
    exact place.bytes
  rw [place.entry]
  have whole : chainBytes s (fuel + 2) (j % (s.qSize / 2) * 2) =
      s.txHdr (j % (s.qSize / 2)) ++ padded data := by
    rw [chainBytes, place.header]
    dsimp only
    rw [if_pos (by decide), tail, header]
  rw [eq] at whole ⊢
  rw [whole, ← place.headerBytes, eq, List.drop_left]

/-- Where the stores of call number `n` go. -/
theorem fill_places (divides : s.qSize ∣ idxRange) {n : Nat}
    (last : s.lastAvailIdx = n % idxRange) (avail : s.availIdx = n % idxRange)
    (pos : 0 < s.qSize / 2) : s.lastAvailIdx % (s.qSize / 2) = n % (s.qSize / 2) ∧
      s.availIdx % s.qSize = n % s.qSize := by
  rw [last, avail]
  exact ⟨counter_slot (half_divides divides pos).1 n, counter_slot divides n⟩

/-- The stores of a call leave the packets in flight alone. -/
theorem InPlace.fill (place : InPlace s j data) (divides : s.qSize ∣ idxRange)
    {n : Nat} (last : s.lastAvailIdx = n % idxRange) (avail : s.availIdx = n % idxRange)
    {lo : Nat} (room : n < lo + s.qSize / 2) (from_ : lo ≤ j) (below : j < n)
    (new : List UInt8) : InPlace (txFill s new) j data := by
  obtain ⟨head, slot⟩ := fill_places divides last avail (by omega)
  have apart : j % (s.qSize / 2) ≠ n % (s.qSize / 2) := slot_ne room from_ below
  have wide : n < lo + s.qSize := by omega
  have apartRing : j % s.qSize ≠ n % s.qSize := slot_ne wide from_ below
  have even : j % (s.qSize / 2) * 2 ≠ n % (s.qSize / 2) * 2 + 1 := by omega
  have odd : j % (s.qSize / 2) * 2 + 1 ≠ n % (s.qSize / 2) * 2 := by omega
  have evens : j % (s.qSize / 2) * 2 ≠ n % (s.qSize / 2) * 2 := by omega
  have odds : j % (s.qSize / 2) * 2 + 1 ≠ n % (s.qSize / 2) * 2 + 1 := by omega
  constructor
  · simp only [txFill, slot, Function.update_of_ne apartRing]
    exact place.entry
  · simp only [txFill, head, Function.update_of_ne even, Function.update_of_ne evens]
    exact place.header
  · simp only [txFill, head, Function.update_of_ne odd, Function.update_of_ne odds]
    exact place.packet
  · simp only [txFill, head, Function.update_of_ne apart]
    exact place.headerBytes
  · simp only [txFill, head, Function.update_of_ne apart]
    exact place.bytes

/-- And they put the new packet in its place. -/
theorem txFill_inPlace (divides : s.qSize ∣ idxRange) {n : Nat}
    (last : s.lastAvailIdx = n % idxRange) (avail : s.availIdx = n % idxRange)
    (pos : 0 < s.qSize / 2) (new : List UInt8) : InPlace (txFill s new) n new := by
  obtain ⟨head, slot⟩ := fill_places divides last avail pos
  constructor
  · simp only [txFill, head, slot, Function.update_self]
  · simp [txFill, head]
  · simp [txFill, head]
  · simp [txFill, head, virtioNetHdrSize]
  · simp [txFill, head]

/-- Only the stores of a call touch what the device reads. -/
theorem InPlace.frame (place : InPlace s j data) (last avail used : Nat) (phase : TxPhase)
    (wire sent : List (List UInt8)) (returned : List (List UInt8 × Int)) :
    InPlace { s with
      lastAvailIdx := last
      availIdx := avail
      usedIdx := used
      phase := phase
      wire := wire
      sent := sent
      returned := returned } j data :=
  ⟨place.entry, place.header, place.packet, place.headerBytes, place.bytes⟩

end Places

/-! ## The steps -/

section Steps

variable {s : VirtioTx} {q : Nat}

theorem txInit_inv (divides : q ∣ idxRange) : TxInv q (txInit q) where
  size := rfl
  divides := divides
  used := rfl
  avail := rfl
  last := rfl
  order := rfl
  room := Nat.zero_le _
  flight := fun j data _ eq => by cases eq
  placing := trivial
  answers := rfl

theorem transmit_inv (inv : TxInv q s) : TxInv q (transmit s) := by
  unfold transmit
  split
  · exact inv
  next waiting =>
    have le := inv.wire_le
    have room := inv.room
    have lt : s.wire.length < s.sent.length := by
      refine lt_of_le_of_ne le fun same => waiting ?_
      rw [inv.used, inv.avail, same]
    have pos : 0 < s.qSize / 2 := by omega
    have two := (half_divides inv.divides pos).2
    have eq : s.sent[s.wire.length]? = some (s.sent[s.wire.length]) := List.getElem?_eq_getElem lt
    have place := inv.flight _ _ (Nat.le_refl _) eq
    have slot : s.usedIdx % s.qSize = s.wire.length % s.qSize := by
      rw [inv.used, counter_slot inv.divides]
    dsimp only
    rw [slot, place.chain two]
    have length : (s.wire ++ [padded s.sent[s.wire.length]]).length = s.wire.length + 1 := by
      rw [List.length_append, List.length_singleton]
    refine ⟨inv.size, inv.divides, ?_, inv.avail, inv.last, ?_, ?_, fun j data from_ eqJ => ?_, ?_,
      inv.answers⟩
    · rw [length, inv.used, counter_succ]
    · rw [length, List.take_add_one, eq, List.map_append, ← inv.order]
      rfl
    · rw [length]
      exact room.trans (Nat.add_le_add_right (Nat.le_succ _) _)
    · rw [length] at from_
      exact (inv.flight j data (by omega) eqJ).frame ..
    · have placing := inv.placing
      unfold Placing at placing ⊢
      dsimp only
      rw [length]
      cases phase : s.phase with
      | filling data =>
          rw [phase] at placing
          dsimp only at placing ⊢
          omega
      | filled data =>
          rw [phase] at placing
          obtain ⟨free, filled⟩ := placing
          refine ⟨?_, phase ▸ filled.frame ..⟩
          show s.sent.length < s.wire.length + 1 + s.qSize / 2
          omega
      | published data =>
          rw [phase] at placing
          exact placing
      | _ => trivial

/-- The wait loop ends where a slot is free. -/
theorem txFull_iff (inv : TxInv q s) (counted : countedSent s = s.sent.length) :
    txFull s = true ↔ s.wire.length + s.qSize / 2 ≤ s.sent.length := by
  have le := inv.wire_le
  unfold txFull
  rw [inv.last, inv.used, counted, counter_sub le inv.near, decide_eq_true_iff]
  omega

/-- A step that changes neither the counts nor the memory. -/
theorem TxInv.idle (inv : TxInv q s) (phase : TxPhase) (returned : List (List UInt8 × Int))
    (counted : countedSent { s with phase := phase, returned := returned } = countedSent s)
    (placing : Placing { s with phase := phase, returned := returned })
    (answers : acceptedPackets { s with phase := phase, returned := returned } =
      acceptedPackets s) :
    TxInv q { s with phase := phase, returned := returned } where
  size := inv.size
  divides := inv.divides
  used := inv.used
  avail := inv.avail
  last := by
    rw [counted]
    exact inv.last
  order := inv.order
  room := inv.room
  flight := fun j data from_ eq => (inv.flight j data from_ eq).frame ..
  placing := placing
  answers := by
    rw [answers, counted]
    exact inv.answers

/-- A call that fails is not counted. -/
theorem acceptedPackets_failed (data : List UInt8) (phase : TxPhase) :
    acceptedPackets { s with phase := phase, returned := s.returned ++ [(data, -1)] } =
      acceptedPackets s := by
  simp [acceptedPackets]

theorem txFill_inv (inv : TxInv q s) {data : List UInt8} (phase : s.phase = .filling data) :
    TxInv q (txFill s data) := by
  have free : s.sent.length < s.wire.length + s.qSize / 2 := by
    have placing := inv.placing
    unfold Placing at placing
    rw [phase] at placing
    exact placing
  have le := inv.wire_le
  have counted : countedSent s = s.sent.length := by rw [countedSent, phase]
  have last : s.lastAvailIdx = s.sent.length % idxRange := counted ▸ inv.last
  refine ⟨inv.size, inv.divides, inv.used, inv.avail, last, inv.order, inv.room, fun j old from_ eq => ?_,
    ⟨free, ?_⟩, ?_⟩
  · have below : j < s.sent.length := (List.getElem?_eq_some_iff.1 eq).1
    exact (inv.flight j old from_ eq).fill inv.divides last inv.avail free from_ below data
  · exact txFill_inPlace inv.divides last inv.avail (by omega) data
  · have answers := inv.answers
    rw [counted] at answers
    exact answers

/-- The index is raised: the device may take the packet from now on. -/
theorem publish_inv (inv : TxInv q s) {data : List UInt8} (phase : s.phase = .filled data) :
    TxInv q (sendProceed s) := by
  have placing := inv.placing
  unfold Placing at placing
  rw [phase] at placing
  obtain ⟨free, place⟩ := placing
  have le := inv.wire_le
  have counted : countedSent s = s.sent.length := by rw [countedSent, phase]
  have length : (s.sent ++ [data]).length = s.sent.length + 1 := by
    rw [List.length_append, List.length_singleton]
  have answers := inv.answers
  rw [counted, List.take_length] at answers
  unfold sendProceed
  rw [phase]
  refine ⟨inv.size, inv.divides, inv.used, ?_, ?_, ?_, ?_, fun j old from_ eq => ?_, ?_, ?_⟩
  · show (s.availIdx + 1) % idxRange = (s.sent ++ [data]).length % idxRange
    rw [length, inv.avail, counter_succ]
  · show s.lastAvailIdx = ((s.sent ++ [data]).length - 1) % idxRange
    rw [length, Nat.add_sub_cancel, inv.last, counted]
  · show s.wire = ((s.sent ++ [data]).take s.wire.length).map padded
    rw [List.take_append_of_le_length le]
    exact inv.order
  · show (s.sent ++ [data]).length ≤ s.wire.length + s.qSize / 2
    omega
  · dsimp only at eq from_
    rcases Nat.lt_or_ge j s.sent.length with old' | new
    · rw [List.getElem?_append_left old'] at eq
      exact (inv.flight j old from_ eq).frame ..
    · have last : j = s.sent.length := by
        have := (List.getElem?_eq_some_iff.1 eq).1
        omega
      subst last
      rw [List.getElem?_concat_length] at eq
      obtain rfl := Option.some.inj eq
      exact place.frame ..
  · exact List.getLast?_concat
  · show acceptedPackets s = (s.sent ++ [data]).take ((s.sent ++ [data]).length - 1)
    rw [length, Nat.add_sub_cancel, List.take_left, answers]

/-- `last_avail_idx` follows, and the call returns 0. -/
theorem return_inv (inv : TxInv q s) {data : List UInt8} (phase : s.phase = .published data) :
    TxInv q (sendProceed s) := by
  have placing := inv.placing
  unfold Placing at placing
  rw [phase] at placing
  obtain ⟨front, sent⟩ : ∃ front, s.sent = front ++ [data] :=
    List.getLast?_eq_some_iff.1 placing
  have counted : countedSent s + 1 = s.sent.length := by
    rw [countedSent, phase, sent, List.length_append, List.length_singleton]
    rfl
  have answers := inv.answers
  unfold sendProceed
  rw [phase]
  refine ⟨inv.size, inv.divides, inv.used, inv.avail, ?_, inv.order, inv.room,
    fun j old from_ eq => (inv.flight j old from_ eq).frame .., trivial, ?_⟩
  · show (s.lastAvailIdx + 1) % idxRange = s.sent.length % idxRange
    rw [inv.last, counter_succ, counted]
  · show acceptedPackets { s with returned := s.returned ++ [(data, 0)] } =
      s.sent.take s.sent.length
    have added : acceptedPackets { s with returned := s.returned ++ [(data, 0)] } =
        acceptedPackets s ++ [data] := by
      simp [acceptedPackets]
    rw [added, answers, List.take_length, sent, show countedSent s = front.length by
      rw [sent, List.length_append, List.length_singleton] at counted
      omega, List.take_left]

theorem sendProceed_inv (inv : TxInv q s) : TxInv q (sendProceed s) := by
  cases phase : s.phase with
  | idle =>
      unfold sendProceed
      rw [phase]
      exact inv
  | waiting data timeout =>
      have counted : countedSent s = s.sent.length := by rw [countedSent, phase]
      unfold sendProceed
      rw [phase]
      dsimp only
      split
      · split
        · exact inv.idle _ _ counted.symm trivial (acceptedPackets_failed data .idle)
        · exact inv.idle _ s.returned counted.symm trivial rfl
      next free =>
        refine inv.idle _ s.returned counted.symm ?_ rfl
        rw [txFull_iff inv counted] at free
        show s.sent.length < s.wire.length + s.qSize / 2
        omega
  | filling data =>
      have filled := txFill_inv inv phase
      unfold sendProceed
      rw [phase]
      exact filled
  | filled data => exact publish_inv inv phase
  | published data => exact return_inv inv phase

theorem txStep_inv (inv : TxInv q s) (a : TxStep) : TxInv q (txStep s a) := by
  cases a with
  | transmit => exact transmit_inv inv
  | proceed => exact sendProceed_inv inv
  | send data =>
      cases phase : s.phase with
      | idle =>
          have counted : countedSent s = s.sent.length := by rw [countedSent, phase]
          unfold txStep
          rw [phase]
          dsimp only
          split
          · exact inv.idle _ _ counted.symm trivial (acceptedPackets_failed data .idle)
          · exact inv.idle _ s.returned counted.symm trivial rfl
      | _ =>
          unfold txStep
          rw [phase]
          exact inv

theorem txRun_inv (divides : q ∣ idxRange) (as : List TxStep) :
    TxInv q (run txStep (txInit q) as) := by
  have keep : ∀ s a, TxInv q s → TxInv q (txStep s a) := fun _ a inv => txStep_inv inv a
  exact Reaches.invariant keep (txInit_inv divides) ⟨as, rfl⟩

end Steps

end NTux.Net
