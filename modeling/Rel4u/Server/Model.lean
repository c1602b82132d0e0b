import Rel4u.Session.Table

/-!
# The server (`rel4u_server.c`)

Application threads enqueue messages on `sendQueue` and receive from `recvQueue`. One worker thread
handles datagrams, drains `sendQueue` into the sessions' windows and runs the timers. Each function
below is one critical section of `table_mutex`, or one turn of a worker loop; a run of the server is
a sequence of them.

What the code reads from its surroundings are arguments: the clock (`nowNs`), the address of the
worker's stack variable that seeds new session ids (`stackAddr`), the outcomes of allocations, and
whether `sendto` succeeded (`sent`). Sent packets are returned with their destination.

The configuration's `bind_address` and `bind_port`, the socket, the wake-up pipe and the statistics
are left out.
-/

namespace Rel4u

/-- `rel4u_server_config_t`, the fields that are read after creation, and those that size the
queues and the table. -/
structure ServerConfig where
  maxClients : UInt32
  fullPolicy : MaxClientsPolicy
  mtu : UInt16
  sendQueueCapacity : UInt32
  recvQueueCapacity : UInt32
  windowSize : UInt32
  heartbeatIntervalMs : UInt32
  inactivityTimeoutMs : UInt32
  memoryMode : MemoryMode
  queueFullPolicy : QueueFullPolicy
  maxSendMemoryBytes : ℕ
  maxRecvMemoryBytes : ℕ
  deriving DecidableEq, Repr

/-- The outcomes of the allocations that creating an endpoint makes. -/
structure CreateAllocs where
  sendRing : Bool
  recvRing : Bool
  sendMalloc : ℕ → Bool
  recvMalloc : ℕ → Bool
  table : Bool
  sendWindow : ℕ → Bool
  recvWindow : ℕ → Bool

/-- Every allocation succeeds. -/
def CreateAllocs.allOk : CreateAllocs :=
  ⟨true, true, fun _ => true, fun _ => true, true, fun _ => true, fun _ => true⟩

/-- `rel4u_server_t`; `pendingItem` is `pending_item` with its flag. -/
structure Server where
  config : ServerConfig
  running : Bool
  sendQueue : MpmcQueue
  recvQueue : MpmcQueue
  table : SessionTable
  pendingItem : Option MpmcItem

/-- `REL4U_MAX_PAYLOAD`. -/
def maxPayload (mtu : UInt16) : ℕ := mtu.toNat - headerLen

/-- `(uint64_t)ms * 1000000ULL`. -/
def msToNs (ms : UInt32) : UInt64 := ms.toUInt64 * 1000000

/-- `sizeof(in_buf)` in both workers. -/
def inBufSize : ℕ := maxPayloadSize + headerLen

namespace ServerConfig

/-- The defaults that `rel4u_server_create` fills in. -/
def withDefaults (c : ServerConfig) : ServerConfig :=
  { c with
    maxClients := if c.maxClients = 0 then 64 else c.maxClients
    mtu := if c.mtu = 0 then 1400 else c.mtu
    sendQueueCapacity := if c.sendQueueCapacity < 8 then 256 else c.sendQueueCapacity
    recvQueueCapacity := if c.recvQueueCapacity < 8 then 256 else c.recvQueueCapacity
    windowSize := if c.windowSize < 8 then 64 else c.windowSize
    heartbeatIntervalMs := if c.heartbeatIntervalMs = 0 then 1000 else c.heartbeatIntervalMs
    inactivityTimeoutMs := if c.inactivityTimeoutMs = 0 then 5000 else c.inactivityTimeoutMs
    maxSendMemoryBytes :=
      if c.memoryMode = .dynamic ∧ c.maxSendMemoryBytes = 0 then 1024 * 1024
      else c.maxSendMemoryBytes
    maxRecvMemoryBytes :=
      if c.memoryMode = .dynamic ∧ c.maxRecvMemoryBytes = 0 then 1024 * 1024
      else c.maxRecvMemoryBytes }

end ServerConfig

namespace Server

/-- `rel4u_server_create`. -/
def create (config : ServerConfig) (a : CreateAllocs) : Option Server :=
  let config := config.withDefaults
  match MpmcQueue.init config.memoryMode config.queueFullPolicy config.sendQueueCapacity.toNat
      config.maxSendMemoryBytes a.sendRing a.sendMalloc with
  | none => none
  | some sendQueue =>
    match MpmcQueue.init config.memoryMode config.queueFullPolicy config.recvQueueCapacity.toNat
        config.maxRecvMemoryBytes a.recvRing a.recvMalloc with
    | none => none
    | some recvQueue =>
      match SessionTable.init config.maxClients config.fullPolicy config.windowSize a.table
          a.sendWindow a.recvWindow with
      | none => none
      | some table =>
        some { config, running := false, sendQueue, recvQueue, table, pendingItem := none }

/-- `rel4u_server_start`, when the socket and the worker come up. -/
def start (s : Server) : Server := { s with running := true }

/-- `while (rel4u_mpmc_try_pop(..)) {}`; each turn removes an item, so `count` turns are enough. -/
def emptyQueue : ℕ → MpmcQueue → MpmcQueue
  | 0, q => q
  | fuel + 1, q =>
    match q.tryPop with
    | (some _, q) => emptyQueue fuel q
    | (none, q) => q

/-- `rel4u_server_stop`. -/
def stop (s : Server) : Server :=
  if !s.running then s
  else
    { s with
      running := false
      table := (List.range s.table.maxClients.toNat).foldl SessionTable.free s.table
      sendQueue := emptyQueue (s.sendQueue.count + 1) s.sendQueue
      recvQueue := emptyQueue (s.recvQueue.count + 1) s.recvQueue
      pendingItem := none }

/-- `rel4u_server_send`: the return code and the server. -/
def send (s : Server) (clientId : UInt32) (mode : UInt8) (data : List UInt8) (len : ℕ) :
    ℤ × Server :=
  if len > maxPayload s.config.mtu then (-8, s)
  else if !s.running then (-7, s)
  else
    match s.sendQueue.tryPush (.ofSend clientId mode data len) with
    | (true, sendQueue) => (0, { s with sendQueue })
    | (false, sendQueue) => (-4, { s with sendQueue })

/-- `rel4u_server_recv`, when it does not time out: the message returned. -/
def recv (s : Server) : Option MpmcItem × Server :=
  match s.recvQueue.popWait with
  | (item, recvQueue) => (item, { s with recvQueue })

/-! ### Sending -/

/-- `server_send_packet`: the packet, and the session after it. -/
def sendPacket (session : Session) (sent : Bool) (type : PktType) (mode : UInt8) (seq : UInt32)
    (payload : List UInt8) (payloadLen : ℕ) : Session × (NetAddr × Packet) :=
  ({ session with ackPending := if sent then false else session.ackPending },
    (session.addr,
      mkPacket type mode session.sessionId seq session.recvWin.getAckInfo payload payloadLen))

/-- A packet made of a bare header, as REJECT, RESET and DISCONNECT are sent. -/
def barePacket (type : PktType) (sessionId seq : UInt32) : Packet :=
  mkPacket type 0 sessionId seq (0, 0) [] 0

/-- `rel4u_server_disconnect_client`. -/
def disconnectClient (s : Server) (clientId : UInt32) : Server × List (NetAddr × Packet) :=
  match s.table.findById clientId with
  | none => (s, [])
  | some i =>
    ({ s with table := s.table.free i },
      [((s.table.slot i).addr, barePacket .disconnect (s.table.slot i).sessionId 0)])

/-! ### Datagrams -/

/-- `new_session_id`. -/
def newSessionId (nowNs stackAddr : UInt64) : UInt32 :=
  let id := (nowNs ^^^ stackAddr).toUInt32
  if id = 0 then 1 else id

/-- The end of the CONNECT_REQ branch, once there is a session. -/
def acceptConnect (s : Server) (slotIdx : ℤ) (session : Session) (nowNs : UInt64) (sent : Bool) :
    Server × List (NetAddr × Packet) :=
  let session := { session with lastActivityNs := nowNs, lastHeartbeatSentNs := nowNs }
  let (session, out) := sendPacket session sent .connectResp 0 0 [] 0
  ({ s with table := s.table.setSessionAt slotIdx session }, [out])

/-- The CONNECT_REQ branch. -/
def onConnectReq (s : Server) (srcAddr : NetAddr) (nowNs stackAddr : UInt64)
    (callocSend callocRecv sent : Bool) : Server × List (NetAddr × Packet) :=
  match s.table.findByAddr srcAddr with
  | some i => s.acceptConnect i (s.table.slot i) nowNs sent
  | none =>
    match s.table.allocate srcAddr (newSessionId nowNs stackAddr) callocSend callocRecv with
    | (none, table) => ({ s with table }, [(srcAddr, barePacket .reject 0 0)])
    | (some (slotIdx, session), table) =>
      { s with table }.acceptConnect slotIdx session nowNs sent

/-- The answer to a packet that belongs to no session. -/
def resetReply (srcAddr : NetAddr) (hdr : Header) : List (NetAddr × Packet) :=
  if hdr.packetType ≠ PktType.reset.code ∧ hdr.packetType ≠ PktType.disconnect.code ∧
      hdr.packetType ≠ PktType.reject.code then
    [(srcAddr, barePacket .reset hdr.sessionId hdr.seqNum)]
  else []

/-- The LRU update, and the promotion of a session whose handshake is not complete. -/
def touched (session : Session) (nowNs : UInt64) : Session :=
  let session := { session with lastActivityNs := nowNs }
  if session.state = .connecting then { session with state := .connected } else session

/-- The DATA branch: the session, and the slots pushed to the receive queue. -/
def onDataPacket (session : Session) (pkt : Packet) : Session × List RecvSlot :=
  let (res, recvWin, ready) := session.recvWin.onData pkt.hdr pkt.payload readySlots
  ({ session with
      recvWin
      ackPending := if res = 0 ∨ res = 1 then true else session.ackPending },
    ready)

/-- A packet of the session from its acknowledgement on: the session, the slots pushed to the
receive queue, and what is sent. -/
def processPacket (session : Session) (pkt : Packet) (nowNs : UInt64) (sent : Bool) :
    Session × List RecvSlot × List (NetAddr × Packet) :=
  let (sendWin, rtt) := session.sendWin.onAck pkt.hdr.ackNum pkt.hdr.sackMask nowNs session.rtt
  let session := { session with sendWin, rtt }
  let (session, out) :=
    if pkt.hdr.packetType = PktType.heartbeat.code then
      let (session, out) := sendPacket session sent .heartbeatAck 0 0 [] 0
      (session, [out])
    else (session, [])
  let (session, ready) :=
    if pkt.hdr.packetType = PktType.data.code then onDataPacket session pkt else (session, [])
  (session, ready, out)

/-- A packet for the session in slot `i`, from the LRU update on. -/
def onSessionPacket (s : Server) (i : ℕ) (pkt : Packet) (nowNs : UInt64) (sent : Bool) :
    Server × List (NetAddr × Packet) :=
  let session := touched (s.table.slot i) nowNs
  if pkt.hdr.packetType = PktType.connectAck.code then
    ({ s with table := s.table.setSlot i session }, [])
  else if pkt.hdr.packetType = PktType.disconnect.code then
    ({ s with table := (s.table.setSlot i session).free i }, [])
  else
    let (session, ready, out) := processPacket session pkt nowNs sent
    ({ s with
        table := s.table.setSlot i session
        recvQueue := pushReady session.clientId s.recvQueue ready }, out)

/-- One decoded datagram. -/
def handle (s : Server) (srcAddr : NetAddr) (pkt : Packet) (nowNs stackAddr : UInt64)
    (callocSend callocRecv sent : Bool) : Server × List (NetAddr × Packet) :=
  if pkt.hdr.packetType = PktType.connectReq.code then
    s.onConnectReq srcAddr nowNs stackAddr callocSend callocRecv sent
  else
    match s.table.findByAddr srcAddr with
    | none => (s, resetReply srcAddr pkt.hdr)
    | some i =>
      if (s.table.slot i).sessionId ≠ pkt.hdr.sessionId then (s, resetReply srcAddr pkt.hdr)
      else s.onSessionPacket i pkt nowNs sent

/-- One datagram as it is read into `in_buf`. -/
def onDatagram (host : Endian) (s : Server) (srcAddr : NetAddr) (datagram : List UInt8)
    (nowNs stackAddr : UInt64) (callocSend callocRecv sent : Bool) :
    Server × List (NetAddr × Packet) :=
  let inBuf := datagram.take inBufSize
  match decodeHeader host inBuf with
  | .error _ => (s, [])
  | .ok hdr =>
    s.handle srcAddr ⟨hdr, inBuf.drop headerLen⟩ nowNs stackAddr callocSend callocRecv sent

/-! ### Draining the send queue -/

/-- The item a turn of the drain loop works on: the one held back, or the next of the queue, which
is then held in its turn. -/
def takeItem (s : Server) : Option MpmcItem × Server :=
  match s.pendingItem with
  | some item => (some item, s)
  | none =>
    match s.sendQueue.tryPop with
    | (item, sendQueue) => (item, { s with sendQueue, pendingItem := item })

/-- A turn of the drain loop with its item; the boolean is `false` when the loop breaks. -/
def drainItem (s : Server) (item : MpmcItem) (nowNs : UInt64) (sent : Bool) :
    Bool × Server × List (NetAddr × Packet) :=
  match s.table.findById item.clientId with
  | none => (true, { s with pendingItem := none }, [])
  | some i =>
    let session := s.table.slot i
    if session.state = .connected then
      if session.sendWin.canSend then
        match session.sendWin.push item.mode item.data item.len.toNat nowNs with
        | .ok (sendWin, seq) =>
          let (session, out) := sendPacket { session with sendWin } sent .data item.mode seq
            item.data item.len.toNat
          (true, { s with table := s.table.setSlot i session, pendingItem := none }, [out])
        | .error _ => (true, { s with pendingItem := none }, [])
      else (false, s, [])
    else (true, { s with pendingItem := none }, [])

/-- One turn of the drain loop. -/
def drainStep (s : Server) (nowNs : UInt64) (sent : Bool) :
    Bool × Server × List (NetAddr × Packet) :=
  match s.takeItem with
  | (none, s) => (false, s, [])
  | (some item, s) => s.drainItem item nowNs sent

/-! ### Timers -/

/-- The inactivity check of slot `i`. -/
def expireSession (s : Server) (i : ℕ) (nowNs : UInt64) : Server :=
  let session := s.table.slot i
  if session.active &&
      decide (nowNs - session.lastActivityNs ≥ msToNs s.config.inactivityTimeoutMs) then
    { s with table := s.table.free i }
  else s

/-- The retransmission pass of slot `i`. -/
def retransmitSession (s : Server) (i : ℕ) (nowNs : UInt64) (sent : Bool) :
    Server × List (NetAddr × Packet) :=
  let session := s.table.slot i
  if session.state = .connected then
    let (sendWin, rtt, packets) := retransmit session.sendWin session.rtt nowNs session.sessionId
      session.recvWin.getAckInfo
    let ackPending := if sent && !packets.isEmpty then false else session.ackPending
    ({ s with table := s.table.setSlot i { session with sendWin, rtt, ackPending } },
      packets.map fun p => (session.addr, p))
  else (s, [])

/-- The standalone ACK of slot `i`. -/
def ackSession (s : Server) (i : ℕ) (sent : Bool) : Server × List (NetAddr × Packet) :=
  let session := s.table.slot i
  if session.state = .connected ∧ session.ackPending = true then
    let (session, out) := sendPacket session sent .ack 0 0 [] 0
    ({ s with table := s.table.setSlot i session }, [out])
  else (s, [])

/-- The heartbeat of slot `i`. -/
def heartbeatSession (s : Server) (i : ℕ) (nowNs : UInt64) (sent : Bool) :
    Server × List (NetAddr × Packet) :=
  let session := s.table.slot i
  if session.state = .connected ∧
      nowNs - session.lastHeartbeatSentNs ≥ msToNs s.config.heartbeatIntervalMs then
    let (session, out) := sendPacket session sent .heartbeat 0 0 [] 0
    ({ s with table := s.table.setSlot i { session with lastHeartbeatSentNs := nowNs } }, [out])
  else (s, [])

end Server

end Rel4u
