import Rel4u.Window.Recv

/-!
# What the two workers share (`rel4u_client.c`, `rel4u_server.c`)

The client's and the server's worker threads contain the same statements for a DATA packet and for
retransmission; they differ in the `client_id` they put on an item and in the record the windows
live in.

A DATA packet is given to the receive window with a scratch array of 64 slots, and the window is
then drained in batches of 64. Each batch is pushed to the receive queue before the next is popped.
The queue and the window have no part in common, so `onData` computes the window and collects the
slots in the order they are pushed, and `pushReady` pushes them.
-/

namespace Rel4u

/-- The length of `ready_slots` in both workers. -/
def readySlots : ℕ := 64

/-- The message of a slot handed to the worker. -/
def RecvSlot.message (s : RecvSlot) : Message :=
  { mode := s.deliveryMode, len := s.payloadLen, payload := s.payload.take s.payloadLen.toNat }

/-- The message that `push` is given. -/
def Message.ofPush (mode : UInt8) (data : List UInt8) (len : ℕ) : Message :=
  { mode := mode, len := UInt16.ofNat len, payload := data.take len }

/-- The item that `rel4u_client_send` and `rel4u_server_send` build; its array has `maxPayloadSize`
bytes, and `len` of them are written. -/
def MpmcItem.ofSend (clientId : UInt32) (mode : UInt8) (data : List UInt8) (len : ℕ) : MpmcItem :=
  { clientId, mode, len := UInt16.ofNat len, data := data.take len }

/-- The message of a queue item. -/
def MpmcItem.message (x : MpmcItem) : Message :=
  { mode := x.mode, len := x.len, payload := x.data.take x.len.toNat }

namespace RecvWindow

/-- The loop after a new packet, `while (ready_count == 64 && pop_ready(..) == 0 &&
ready_count > 0)`: the window and the slots of all its batches. `ready` is the previous batch.
A turn that continues advances the window, so `slots.length + 1` turns are enough. -/
def drainFull (maxReady : ℕ) : ℕ → RecvWindow → List RecvSlot → RecvWindow × List RecvSlot
  | 0, win, _ => (win, [])
  | fuel + 1, win, ready =>
    if ready.length = maxReady then
      let (win, ready) := win.popReady maxReady
      if ready.length > 0 then
        let (win, rest) := drainFull maxReady fuel win ready
        (win, ready ++ rest)
      else (win, [])
    else (win, [])

/-- The loop after a duplicate, `while (pop_ready(..) == 0 && ready_count > 0)`. -/
def drainReady (maxReady : ℕ) : ℕ → RecvWindow → RecvWindow × List RecvSlot
  | 0, win => (win, [])
  | fuel + 1, win =>
    let (win, ready) := win.popReady maxReady
    if ready.length > 0 then
      let (win, rest) := drainReady maxReady fuel win
      (win, ready ++ rest)
    else (win, [])

/-- The handling of a DATA packet: the result of `on_packet`, the window, and the slots pushed to
the receive queue. -/
def onData (win : RecvWindow) (hdr : Header) (payload : List UInt8) (maxReady : ℕ) :
    ℤ × RecvWindow × List RecvSlot :=
  let (res, win, ready) := win.onPacket hdr payload maxReady
  if res = 0 then
    let (win, rest) := drainFull maxReady (win.slots.length + 1) win ready
    (res, win, ready ++ rest)
  else if res = 1 then
    let (win, ready) := drainReady maxReady (win.slots.length + 1) win
    (res, win, ready)
  else (res, win, [])

end RecvWindow

/-- The queue item of a delivered slot. -/
def itemOfReady (clientId : UInt32) (slot : RecvSlot) : MpmcItem :=
  { clientId := clientId, mode := slot.deliveryMode, len := slot.payloadLen,
    data := slot.payload.take slot.payloadLen.toNat }

/-- The pushes of delivered slots to the receive queue; their results are not looked at. -/
def pushReady (clientId : UInt32) (queue : MpmcQueue) (ready : List RecvSlot) : MpmcQueue :=
  ready.foldl (fun queue slot => (queue.pushNotify (itemOfReady clientId slot)).2) queue

/-- The DATA packet of a slot of the send window. -/
def slotPacket (sessionId : UInt32) (ackInfo : UInt32 × UInt32) (slot : SendSlot) : Packet :=
  mkPacket .data slot.deliveryMode sessionId slot.seqNum ackInfo slot.payload
    slot.payloadLen.toNat

/-- The retransmission pass: at most 16 expired slots are marked and sent again. -/
def retransmit (win : SendWindow) (rtt : Rtt) (nowNs : UInt64) (sessionId : UInt32)
    (ackInfo : UInt32 × UInt32) : SendWindow × Rtt × List Packet :=
  let expired := win.getExpired nowNs rtt.getRto 16
  if expired.length > 0 then
    (expired.foldl (fun win i => win.resend nowNs i) win, rtt.onTimeout,
      expired.map fun i => slotPacket sessionId ackInfo (win.slot i))
  else (win, rtt, [])

end Rel4u
