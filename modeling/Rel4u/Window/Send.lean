import Rel4u.Lib.Serial
import Rel4u.Queue.Mpmc
import Rel4u.Window.Rtt

/-!
# The send window (`rel4u_window.h`, `rel4u_window.c`, first half)

A ring of `capacity` slots holds the reliable messages that have been sent and not yet
acknowledged. `headSeq` is the oldest of them, `nextSeq` the next number to assign; a sequence
number lives in slot `seq & (capacity - 1)`.

A null `slots` pointer is the empty list. Loops that run over the sequence numbers between
`headSeq` and `nextSeq` recurse on their distance, which is the number of turns they can take.
-/

namespace Rel4u

/-! ### Sequence arithmetic -/

/-- `rel4u_seq_diff`. -/
def seqDiff (a b : UInt32) : ℤ := Serial.diff a b

/-- `rel4u_seq_lt`. -/
def seqLt (a b : UInt32) : Bool := decide (seqDiff a b < 0)

/-- `rel4u_seq_lte`. -/
def seqLte (a b : UInt32) : Bool := decide (seqDiff a b ≤ 0)

/-- `rel4u_seq_gt`. -/
def seqGt (a b : UInt32) : Bool := decide (seqDiff a b > 0)

/-- `rel4u_seq_gte`. -/
def seqGte (a b : UInt32) : Bool := decide (seqDiff a b ≥ 0)

/-- `rel4u_send_slot_t`. The zeroed slot of `calloc` and `memset` is `default`. -/
structure SendSlot where
  seqNum : UInt32
  firstSentTimeNs : UInt64
  lastSentTimeNs : UInt64
  payloadLen : UInt16
  retransmitCount : UInt8
  deliveryMode : UInt8
  inUse : Bool
  acked : Bool
  payload : List UInt8
  deriving DecidableEq, Repr, Inhabited

/-- `slot->acked = true;` -/
def SendSlot.ack (s : SendSlot) : SendSlot := { s with acked := true }

/-- `slot->last_sent_time_ns = now_ns; slot->retransmit_count++;`, as both workers do it before
they send a slot again. -/
def SendSlot.resent (s : SendSlot) (nowNs : UInt64) : SendSlot :=
  { s with lastSentTimeNs := nowNs, retransmitCount := s.retransmitCount + 1 }

/-- `slot->in_use = false;` -/
def SendSlot.unuse (s : SendSlot) : SendSlot := { s with inUse := false }

/-- `rel4u_send_window_t`. -/
structure SendWindow where
  slots : List SendSlot
  capacity : UInt32
  headSeq : UInt32
  nextSeq : UInt32
  nextUnrelSeq : UInt32
  inFlight : UInt32
  deriving DecidableEq, Repr, Inhabited

namespace SendWindow

/-- The capacity test of both `init` functions: at least two and a power of two. -/
def badCapacity (capacity : UInt32) : Bool :=
  decide (capacity < 2) || decide (capacity &&& (capacity - 1) ≠ 0)

/-- `rel4u_send_window_init`; `calloc` is the outcome of the allocation. -/
def init (win : SendWindow) (capacity initialSeq : UInt32) (calloc : Bool) : ℤ × SendWindow :=
  if badCapacity capacity then (-1, win)
  else if !calloc then (-1, { win with slots := [] })
  else
    (0, { slots := List.replicate capacity.toNat default
          capacity := capacity
          headSeq := initialSeq
          nextSeq := initialSeq
          nextUnrelSeq := initialSeq
          inFlight := 0 })

/-- `rel4u_send_window_destroy`. -/
def destroy (win : SendWindow) : SendWindow :=
  { win with slots := [], capacity := 0, inFlight := 0 }

/-- `&win->slots[i]`, read. -/
def slot (win : SendWindow) (i : ℕ) : SendSlot := win.slots.getD i default

/-- `win->slots[i] = s`. -/
def setSlot (win : SendWindow) (i : ℕ) (s : SendSlot) : SendWindow :=
  { win with slots := win.slots.set i s }

/-- `seq & (win->capacity - 1)`. -/
def slotIdx (win : SendWindow) (seq : UInt32) : ℕ := (seq &&& (win.capacity - 1)).toNat

/-- The two fullness tests: too many in flight, or the sequence range as wide as the ring. -/
def isFull (win : SendWindow) : Bool :=
  decide (win.inFlight ≥ win.capacity) ||
    decide (seqDiff win.nextSeq win.headSeq ≥ win.capacity.toInt32.toInt)

/-- `rel4u_send_window_can_send`. -/
def canSend (win : SendWindow) : Bool :=
  decide (win.inFlight < win.capacity) &&
    decide (seqDiff win.nextSeq win.headSeq < win.capacity.toInt32.toInt)

/-- `rel4u_send_window_push`: the window and the sequence number assigned, or the error code.
A message of an unreliable mode only draws a number. -/
def push (win : SendWindow) (mode : UInt8) (data : List UInt8) (len : ℕ) (nowNs : UInt64) :
    Except ℤ (SendWindow × UInt32) :=
  if len > maxPayloadSize then .error (-1)
  else if Reliable mode then
    if win.isFull then .error (-2)
    else
      let seq := win.nextSeq
      let win := { win with nextSeq := win.nextSeq + 1 }
      let i := win.slotIdx seq
      let win := win.setSlot i
        { win.slot i with
          seqNum := seq
          firstSentTimeNs := nowNs
          lastSentTimeNs := nowNs
          payloadLen := UInt16.ofNat len
          retransmitCount := 0
          deliveryMode := mode
          inUse := true
          acked := false
          payload := data.take len }
      .ok ({ win with inFlight := win.inFlight + 1 }, seq)
  else
    .ok ({ win with nextUnrelSeq := win.nextUnrelSeq + 1 }, win.nextUnrelSeq)

/-! ### Acknowledgements -/

/-- The sample taken when a slot is acknowledged: only if it was never retransmitted. -/
def sampleRtt (slot : SendSlot) (nowNs : UInt64) (rtt : Rtt) : Rtt :=
  if slot.retransmitCount = 0 ∧ nowNs ≥ slot.firstSentTimeNs then
    rtt.updateSample ((nowNs - slot.firstSentTimeNs) / 1000000).toUInt32
  else rtt

/-- `slot->acked = true; if (win->in_flight > 0) win->in_flight--;` -/
def markAcked (win : SendWindow) (i : ℕ) : SendWindow :=
  let win := win.setSlot i (win.slot i).ack
  if win.inFlight > 0 then { win with inFlight := win.inFlight - 1 } else win

/-- One turn of the cumulative loop: release the slot at `headSeq` and advance. -/
def ackHead (win : SendWindow) (nowNs : UInt64) (rtt : Rtt) : SendWindow × Rtt :=
  let i := win.slotIdx win.headSeq
  let slot := win.slot i
  let (win, rtt) :=
    if slot.inUse && decide (slot.seqNum = win.headSeq) then
      let (win, rtt) :=
        if !slot.acked then (win.markAcked i, sampleRtt slot nowNs rtt) else (win, rtt)
      (win.setSlot i (win.slot i).unuse, rtt)
    else (win, rtt)
  ({ win with headSeq := win.headSeq + 1 }, rtt)

/-- The cumulative loop: `while (head <= ack_num && head != next)`. -/
def ackCumulative : ℕ → SendWindow → UInt32 → UInt64 → Rtt → SendWindow × Rtt
  | 0, win, _, _, rtt => (win, rtt)
  | fuel + 1, win, ackNum, nowNs, rtt =>
    if seqLte win.headSeq ackNum && decide (win.headSeq ≠ win.nextSeq) then
      let (win, rtt) := win.ackHead nowNs rtt
      ackCumulative fuel win ackNum nowNs rtt
    else (win, rtt)

/-- The body of the selective loop for bit `i` of the mask. -/
def ackSelective (ackNum sackMask : UInt32) (nowNs : UInt64) (s : SendWindow × Rtt) (i : ℕ) :
    SendWindow × Rtt :=
  let (win, rtt) := s
  if sackMask &&& ((1 : UInt32) <<< UInt32.ofNat i) ≠ 0 then
    let sackSeq := ackNum + 1 + UInt32.ofNat i
    if seqLt sackSeq win.nextSeq && seqGte sackSeq win.headSeq then
      let j := win.slotIdx sackSeq
      let slot := win.slot j
      if slot.inUse && decide (slot.seqNum = sackSeq) && !slot.acked then
        (win.markAcked j, sampleRtt slot nowNs rtt)
      else (win, rtt)
    else (win, rtt)
  else (win, rtt)

/-- `rel4u_send_window_on_ack`, without the copies of the estimate into `stats`. -/
def onAck (win : SendWindow) (ackNum sackMask : UInt32) (nowNs : UInt64) (rtt : Rtt) :
    SendWindow × Rtt :=
  let s := ackCumulative (win.nextSeq - win.headSeq).toNat win ackNum nowNs rtt
  if sackMask ≠ 0 then (List.range 32).foldl (ackSelective ackNum sackMask nowNs) s else s

/-! ### Retransmission, reset, reclaim -/

/-- The scan of `rel4u_send_window_get_expired` from `seq` on. -/
def expiredFrom (win : SendWindow) (nowNs : UInt64) (rtoNs : UInt64) (maxSlots : ℕ) :
    ℕ → UInt32 → List ℕ → List ℕ
  | 0, _, out => out
  | fuel + 1, seq, out =>
    if seqLt seq win.nextSeq then
      let i := win.slotIdx seq
      let slot := win.slot i
      if slot.inUse && decide (slot.seqNum = seq) && !slot.acked &&
          (decide (nowNs ≥ slot.lastSentTimeNs) &&
            decide (nowNs - slot.lastSentTimeNs ≥ rtoNs)) then
        let out := out ++ [i]
        if out.length ≥ maxSlots then out
        else expiredFrom win nowNs rtoNs maxSlots fuel (seq + 1) out
      else expiredFrom win nowNs rtoNs maxSlots fuel (seq + 1) out
    else out

/-- `rel4u_send_window_get_expired`: the indices of the slots returned. -/
def getExpired (win : SendWindow) (nowNs : UInt64) (rtoMs : UInt32) (maxSlots : ℕ) : List ℕ :=
  if maxSlots = 0 then []
  else win.expiredFrom nowNs (rtoMs.toUInt64 * 1000000) maxSlots
    (win.nextSeq - win.headSeq).toNat win.headSeq []

/-- The workers' bookkeeping for slot `i` when it is sent again. -/
def resend (win : SendWindow) (nowNs : UInt64) (i : ℕ) : SendWindow :=
  win.setSlot i ((win.slot i).resent nowNs)

/-- `rel4u_send_window_reset`. -/
def reset (win : SendWindow) (initialSeq : UInt32) : ℤ × SendWindow :=
  if win.slots = [] ∨ win.capacity = 0 then (-1, win)
  else
    (0, { win with
      slots := List.replicate win.capacity.toNat default
      headSeq := initialSeq
      nextSeq := initialSeq
      nextUnrelSeq := initialSeq
      inFlight := 0 })

/-- The queue item of a reclaimed slot. -/
def itemOfSlot (slot : SendSlot) : MpmcItem :=
  { clientId := 0, mode := slot.deliveryMode, len := slot.payloadLen,
    data := slot.payload.take slot.payloadLen.toNat }

/-- The loop of `rel4u_send_window_reclaim_unacked`, from `seq` down to `headSeq`. -/
def reclaimFrom (win : SendWindow) : ℕ → UInt32 → MpmcQueue → ℕ → MpmcQueue × ℕ
  | 0, _, queue, reclaimed => (queue, reclaimed)
  | fuel + 1, seq, queue, reclaimed =>
    if seqGt seq win.headSeq then
      let currentSeq := seq - 1
      let slot := win.slot (win.slotIdx currentSeq)
      if slot.inUse && decide (slot.seqNum = currentSeq) && !slot.acked &&
          decide (Reliable slot.deliveryMode) then
        match queue.pushFront (itemOfSlot slot) with
        | (ok, queue) =>
          reclaimFrom win fuel (seq - 1) queue (if ok then reclaimed + 1 else reclaimed)
      else reclaimFrom win fuel (seq - 1) queue reclaimed
    else (queue, reclaimed)

/-- `rel4u_send_window_reclaim_unacked`. -/
def reclaimUnacked (win : SendWindow) (queue : MpmcQueue) : MpmcQueue × ℕ :=
  if win.slots = [] then (queue, 0)
  else if seqGt win.nextSeq win.headSeq then
    win.reclaimFrom (win.nextSeq - win.headSeq).toNat win.nextSeq queue 0
  else (queue, 0)

end SendWindow

end Rel4u
