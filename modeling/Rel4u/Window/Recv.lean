import Rel4u.Window.Send

/-!
# The receive window (`rel4u_window.h`, `rel4u_window.c`, second half)

`expectedSeq` is the next in-order sequence number. A packet ahead of it, by less than the
capacity, is kept in slot `seq & (capacity - 1)`: a reliable ordered packet with its payload until
everything before it has arrived, a reliable unordered packet, which is delivered on arrival, only
as a mark. The functions report the packets to deliver as a list of at most `maxReady` slots.

Both draining loops clear one received slot a turn, so they take at most as many turns as the ring
has slots.
-/

namespace Rel4u

/-- `rel4u_recv_slot_t`. -/
structure RecvSlot where
  seqNum : UInt32
  payloadLen : UInt16
  deliveryMode : UInt8
  received : Bool
  payload : List UInt8
  deriving DecidableEq, Repr, Inhabited

/-- `slot->received = false;` -/
def RecvSlot.clear (s : RecvSlot) : RecvSlot := { s with received := false }

/-- `rel4u_recv_window_t`. -/
structure RecvWindow where
  slots : List RecvSlot
  capacity : UInt32
  expectedSeq : UInt32
  highestUnrelSeq : UInt32
  hasHighestUnrel : Bool
  deriving DecidableEq, Repr, Inhabited

namespace RecvWindow

/-- `rel4u_recv_window_init`; `calloc` is the outcome of the allocation. -/
def init (win : RecvWindow) (capacity initialSeq : UInt32) (calloc : Bool) : ℤ × RecvWindow :=
  if SendWindow.badCapacity capacity then (-1, win)
  else if !calloc then (-1, { win with slots := [] })
  else
    (0, { slots := List.replicate capacity.toNat default
          capacity := capacity
          expectedSeq := initialSeq
          highestUnrelSeq := 0
          hasHighestUnrel := false })

/-- `rel4u_recv_window_destroy`. -/
def destroy (win : RecvWindow) : RecvWindow := { win with slots := [], capacity := 0 }

/-- `rel4u_recv_window_reset`. -/
def reset (win : RecvWindow) (initialSeq : UInt32) : ℤ × RecvWindow :=
  if win.slots = [] ∨ win.capacity = 0 then (-1, win)
  else
    (0, { win with
      slots := List.replicate win.capacity.toNat default
      expectedSeq := initialSeq
      highestUnrelSeq := 0
      hasHighestUnrel := false })

/-- `&win->slots[i]`, read. -/
def slot (win : RecvWindow) (i : ℕ) : RecvSlot := win.slots.getD i default

/-- `win->slots[i] = s`. -/
def setSlot (win : RecvWindow) (i : ℕ) (s : RecvSlot) : RecvWindow :=
  { win with slots := win.slots.set i s }

/-- `seq & (win->capacity - 1)`. -/
def slotIdx (win : RecvWindow) (seq : UInt32) : ℕ := (seq &&& (win.capacity - 1)).toNat

/-- The slot at `expectedSeq`. -/
def expSlot (win : RecvWindow) : RecvSlot := win.slot (win.slotIdx win.expectedSeq)

/-- `exp_slot->received && exp_slot->seq_num == win->expected_seq`. -/
def expReady (win : RecvWindow) : Bool :=
  win.expSlot.received && decide (win.expSlot.seqNum = win.expectedSeq)

/-- `exp_slot->received = false; win->expected_seq++;` -/
def advance (win : RecvWindow) : RecvWindow :=
  let win' := win.setSlot (win.slotIdx win.expectedSeq) win.expSlot.clear
  { win' with expectedSeq := win'.expectedSeq + 1 }

/-- The loop of `rel4u_recv_window_pop_ready`. -/
def popLoop (maxReady : ℕ) : ℕ → RecvWindow → List RecvSlot → RecvWindow × List RecvSlot
  | 0, win, ready => (win, ready)
  | fuel + 1, win, ready =>
    if ready.length < maxReady then
      if win.expReady then
        let ready :=
          if win.expSlot.deliveryMode = DeliveryMode.reliableOrdered.code then
            ready ++ [win.expSlot]
          else ready
        popLoop maxReady fuel win.advance ready
      else (win, ready)
    else (win, ready)

/-- `rel4u_recv_window_pop_ready`. -/
def popReady (win : RecvWindow) (maxReady : ℕ) : RecvWindow × List RecvSlot :=
  popLoop maxReady win.slots.length win []

/-- The loop of the reliable unordered branch: `ready` already holds the packet itself. -/
def skipLoop (maxReady : ℕ) : ℕ → RecvWindow → List RecvSlot → RecvWindow × List RecvSlot
  | 0, win, ready => (win, ready)
  | fuel + 1, win, ready =>
    if win.expReady then
      if win.expSlot.deliveryMode = DeliveryMode.reliableUnordered.code then
        skipLoop maxReady fuel win.advance ready
      else if win.expSlot.deliveryMode = DeliveryMode.reliableOrdered.code then
        if ready.length < maxReady then
          skipLoop maxReady fuel win.advance (ready ++ [win.expSlot])
        else (win, ready)
      else (win, ready)
    else (win, ready)

/-- `out_ready_slots[0]` of a packet delivered on arrival. -/
def readySlot (hdr : Header) (payload : List UInt8) : RecvSlot :=
  { seqNum := hdr.seqNum, payloadLen := hdr.payloadLen, deliveryMode := hdr.deliveryMode,
    received := true, payload := payload.take hdr.payloadLen.toNat }

/-- `rel4u_recv_window_on_packet`: the return code, the window, and the slots to deliver. -/
def onPacket (win : RecvWindow) (hdr : Header) (payload : List UInt8) (maxReady : ℕ) :
    ℤ × RecvWindow × List RecvSlot :=
  if maxReady = 0 then (-1, win, [])
  else if hdr.deliveryMode = DeliveryMode.unreliableUnordered.code then
    (0, win, [readySlot hdr payload])
  else if hdr.deliveryMode = DeliveryMode.unreliableOrdered.code then
    if !win.hasHighestUnrel || seqGt hdr.seqNum win.highestUnrelSeq then
      (0, { win with highestUnrelSeq := hdr.seqNum, hasHighestUnrel := true },
        [readySlot hdr payload])
    else (1, win, [])
  else if hdr.deliveryMode = DeliveryMode.reliableUnordered.code then
    if seqLt hdr.seqNum win.expectedSeq then (1, win, [])
    else if seqDiff hdr.seqNum win.expectedSeq ≥ win.capacity.toInt32.toInt then (-2, win, [])
    else
      let i := win.slotIdx hdr.seqNum
      let slot := win.slot i
      if slot.received && decide (slot.seqNum = hdr.seqNum) then (1, win, [])
      else
        -- the payload goes straight to the caller; the slot only remembers the arrival
        let win := win.setSlot i
          { slot with
            received := true
            seqNum := hdr.seqNum
            payloadLen := hdr.payloadLen
            deliveryMode := hdr.deliveryMode }
        (0, skipLoop maxReady win.slots.length win [readySlot hdr payload])
  else if hdr.deliveryMode = DeliveryMode.reliableOrdered.code then
    if seqLt hdr.seqNum win.expectedSeq then (1, win, [])
    else if seqDiff hdr.seqNum win.expectedSeq ≥ win.capacity.toInt32.toInt then (-2, win, [])
    else
      let i := win.slotIdx hdr.seqNum
      let slot := win.slot i
      if slot.received && decide (slot.seqNum = hdr.seqNum) then (1, win, [])
      else
        let win := win.setSlot i
          { slot with
            seqNum := hdr.seqNum
            payloadLen := hdr.payloadLen
            deliveryMode := hdr.deliveryMode
            received := true
            payload :=
              if hdr.payloadLen > 0 then payload.take hdr.payloadLen.toNat else slot.payload }
        (0, win.popReady maxReady)
  else (-1, win, [])

/-- The `sack_mask` loop of `rel4u_recv_window_get_ack_info`. -/
def sackMask (win : RecvWindow) : UInt32 :=
  (List.range 32).foldl (fun mask i =>
    let targetSeq := win.expectedSeq + UInt32.ofNat i
    let slot := win.slot (win.slotIdx targetSeq)
    if slot.received && decide (slot.seqNum = targetSeq) then
      mask ||| ((1 : UInt32) <<< UInt32.ofNat i)
    else mask) 0

/-- `rel4u_recv_window_get_ack_info`: `ack_num` and `sack_mask`. -/
def getAckInfo (win : RecvWindow) : UInt32 × UInt32 := (win.expectedSeq - 1, win.sackMask)

end RecvWindow

end Rel4u
