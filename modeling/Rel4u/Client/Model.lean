import Rel4u.Server.Model

/-!
# The client (`rel4u_client.c`)

The application calls `connect`, `disconnect`, `send` and `recv`; one worker thread runs the
handshake, handles datagrams, drains `sendQueue` and runs the timers. `state` is an atomic that
both sides write. The worker reads it once a turn into a local variable, called `workerState` here,
and takes its decisions from that; the functions that can change the local return it.

Each function is one application call, or one part of the worker's turn. Clock readings and the
success of `sendto` are arguments, as at the server.

The configuration's addresses are represented by `serverAddr`, the address they resolve to. The
socket, the wake-up pipe, the thread handle, the statistics and `last_ack_sent_ns` are left out.
-/

namespace Rel4u

/-- `rel4u_client_config_t`, the fields that are read after creation, and those that size the
queues and the windows. -/
structure ClientConfig where
  serverAddr : NetAddr
  mtu : UInt16
  sendQueueCapacity : UInt32
  recvQueueCapacity : UInt32
  windowSize : UInt32
  heartbeatIntervalMs : UInt32
  inactivityTimeoutMs : UInt32
  disableAutoReconnect : Bool
  reconnectIntervalMs : UInt32
  memoryMode : MemoryMode
  queueFullPolicy : QueueFullPolicy
  maxSendMemoryBytes : ℕ
  maxRecvMemoryBytes : ℕ
  deriving DecidableEq, Repr

/-- `rel4u_client_t`. -/
structure Client where
  config : ClientConfig
  workerStarted : Bool
  running : Bool
  state : ConnState
  sessionId : UInt32
  rejected : Bool
  sendQueue : MpmcQueue
  recvQueue : MpmcQueue
  sendWin : SendWindow
  recvWin : RecvWindow
  rtt : Rtt
  lastActivityNs : UInt64
  lastHeartbeatSentNs : UInt64
  ackPending : Bool

/-- The defaults that `rel4u_client_create` fills in. -/
def ClientConfig.withDefaults (c : ClientConfig) : ClientConfig :=
  { c with
    mtu := if c.mtu = 0 then 1400 else c.mtu
    sendQueueCapacity := if c.sendQueueCapacity < 8 then 128 else c.sendQueueCapacity
    recvQueueCapacity := if c.recvQueueCapacity < 8 then 128 else c.recvQueueCapacity
    windowSize := if c.windowSize < 8 then 64 else c.windowSize
    heartbeatIntervalMs := if c.heartbeatIntervalMs = 0 then 1000 else c.heartbeatIntervalMs
    inactivityTimeoutMs := if c.inactivityTimeoutMs = 0 then 5000 else c.inactivityTimeoutMs
    reconnectIntervalMs := if c.reconnectIntervalMs = 0 then 1000 else c.reconnectIntervalMs
    maxSendMemoryBytes :=
      if c.memoryMode = .dynamic ∧ c.maxSendMemoryBytes = 0 then 1024 * 1024
      else c.maxSendMemoryBytes
    maxRecvMemoryBytes :=
      if c.memoryMode = .dynamic ∧ c.maxRecvMemoryBytes = 0 then 1024 * 1024
      else c.maxRecvMemoryBytes }

namespace Client

/-- `rel4u_client_create`. -/
def create (config : ClientConfig) (a : CreateAllocs) : Option Client :=
  let config := config.withDefaults
  match MpmcQueue.init config.memoryMode config.queueFullPolicy config.sendQueueCapacity.toNat
      config.maxSendMemoryBytes a.sendRing a.sendMalloc with
  | none => none
  | some sendQueue =>
    match MpmcQueue.init config.memoryMode config.queueFullPolicy config.recvQueueCapacity.toNat
        config.maxRecvMemoryBytes a.recvRing a.recvMalloc with
    | none => none
    | some recvQueue =>
      match (default : SendWindow).init config.windowSize 1 (a.sendWindow 0) with
      | (sendRes, sendWin) =>
        if sendRes ≠ 0 then none
        else
          match (default : RecvWindow).init config.windowSize 1 (a.recvWindow 0) with
          | (recvRes, recvWin) =>
            if recvRes ≠ 0 then none
            else
              some
                { config, workerStarted := false, running := false, state := .disconnected
                  sessionId := 0, rejected := false, sendQueue, recvQueue, sendWin, recvWin
                  rtt := Rtt.default, lastActivityNs := 0, lastHeartbeatSentNs := 0
                  ackPending := false }

/-- The five assignments that stand before a connection attempt and after a disconnect. -/
def resetConnection (c : Client) : Client :=
  { c with
    sendWin := (c.sendWin.reset 1).2
    recvWin := (c.recvWin.reset 1).2
    rtt := Rtt.default
    sessionId := 0
    ackPending := false }

/-! ### The application's calls -/

/-- `rel4u_client_disconnect` up to `running = false`: the packet it sends. -/
def disconnectBegin (c : Client) : Client × List Packet :=
  if c.workerStarted && c.running then
    ({ c with state := .disconnecting, running := false },
      [Server.barePacket .disconnect c.sessionId 0])
  else (c, [])

/-- `rel4u_client_disconnect` from the moment the worker has been joined. -/
def disconnectEnd (c : Client) : Client :=
  if c.workerStarted then
    { c with workerStarted := false, state := .disconnected }.resetConnection
  else { c with state := .disconnected }

/-- `rel4u_client_connect` from the return of its `rel4u_client_disconnect` to the start of the
worker, which then sets its two clocks; `ok` is whether the socket, the pipe and the thread came
up. -/
def connectBegin (c : Client) (nowNs : UInt64) (ok : Bool) : Client :=
  let c := { c.resetConnection with rejected := false }
  if ok then
    { c with
      state := .connecting
      running := true
      workerStarted := true
      lastActivityNs := nowNs
      lastHeartbeatSentNs := nowNs }
  else c

/-- `rel4u_client_send`: the return code and the client. -/
def send (c : Client) (mode : UInt8) (data : List UInt8) (len : ℕ) : ℤ × Client :=
  if len > maxPayload c.config.mtu then (-8, c)
  else if !c.running then (-7, c)
  else if c.state ≠ .connected ∧ (c.config.disableAutoReconnect = true ∨ c.state ≠ .connecting) then
    (-7, c)
  else
    match c.sendQueue.tryPush (.ofSend 0 mode data len) with
    | (true, sendQueue) => (0, { c with sendQueue })
    | (false, sendQueue) => (-4, { c with sendQueue })

/-- `rel4u_client_recv`, when it does not time out: the message returned. -/
def recv (c : Client) : Option MpmcItem × Client :=
  match c.recvQueue.popWait with
  | (item, recvQueue) => (item, { c with recvQueue })

/-! ### The worker -/

/-- `client_send_packet`: the packet, and the client after it. -/
def sendPacket (c : Client) (sent : Bool) (type : PktType) (mode : UInt8) (seq : UInt32)
    (payload : List UInt8) (payloadLen : ℕ) : Client × Packet :=
  ({ c with ackPending := if sent then false else c.ackPending },
    mkPacket type mode c.sessionId seq c.recvWin.getAckInfo payload payloadLen)

/-- `client_trigger_reconnect`. -/
def triggerReconnect (c : Client) (nowNs : UInt64) : Client :=
  if c.config.disableAutoReconnect then { c with state := .disconnected }
  else
    { c with
      sendQueue := (c.sendWin.reclaimUnacked c.sendQueue).1
      sendWin := (c.sendWin.reset 1).2
      recvWin := (c.recvWin.reset 1).2
      rtt := Rtt.default
      sessionId := 0
      ackPending := false
      lastActivityNs := nowNs
      state := .connecting }

/-- The milliseconds between two CONNECT_REQ. -/
def retryMs (c : Client) : UInt32 :=
  if c.config.reconnectIntervalMs > 0 ∧ c.config.reconnectIntervalMs < 200 then
    c.config.reconnectIntervalMs
  else 200

/-- The handshake part: a CONNECT_REQ while connecting, at most once a retry interval. The last
component is the time of the last request, a local of the worker. -/
def handshake (c : Client) (workerState : ConnState) (lastConnectReqNs nowNs : UInt64)
    (sent : Bool) : Client × List Packet × UInt64 :=
  if workerState = .connecting ∧ nowNs - lastConnectReqNs ≥ msToNs c.retryMs then
    let (c, out) := c.sendPacket sent .connectReq 0 0 [] 0
    (c, [out], nowNs)
  else (c, [], lastConnectReqNs)

/-- The test that decides whether a decoded packet is looked at. -/
def admits (c : Client) (workerState : ConnState) (hdr : Header) : Bool :=
  if hdr.packetType = PktType.reject.code then decide (workerState = .connecting)
  else if hdr.packetType = PktType.connectResp.code then
    decide (workerState = .connecting) && decide (hdr.sessionId ≠ 0)
  else decide (workerState = .connected) && decide (hdr.sessionId = c.sessionId)

/-- The DATA branch. -/
def onDataPacket (c : Client) (pkt : Packet) : Client :=
  let (res, recvWin, ready) := c.recvWin.onData pkt.hdr pkt.payload readySlots
  { c with
    recvWin
    recvQueue := pushReady 0 c.recvQueue ready
    ackPending := if res = 0 ∨ res = 1 then true else c.ackPending }

/-- A packet of the current session that is none of the handshake's and the teardown's. -/
def onSessionPacket (c : Client) (pkt : Packet) (nowNs : UInt64) (sent : Bool) :
    Client × List Packet :=
  let (sendWin, rtt) := c.sendWin.onAck pkt.hdr.ackNum pkt.hdr.sackMask nowNs c.rtt
  let c := { c with sendWin, rtt }
  let (c, out) :=
    if pkt.hdr.packetType = PktType.heartbeat.code then
      let (c, out) := c.sendPacket sent .heartbeatAck 0 0 [] 0
      (c, [out])
    else (c, [])
  if pkt.hdr.packetType = PktType.data.code then (c.onDataPacket pkt, out) else (c, out)

/-- One decoded packet from the server's address: the client, the worker's local state, and what
it sends. -/
def handle (c : Client) (workerState : ConnState) (pkt : Packet) (nowNs : UInt64) (sent : Bool) :
    Client × ConnState × List Packet :=
  if !c.admits workerState pkt.hdr then (c, workerState, [])
  else
    let c := { c with lastActivityNs := nowNs }
    if pkt.hdr.packetType = PktType.connectResp.code then
      let c := { c with sessionId := pkt.hdr.sessionId, state := .connected }
      let (c, out) := c.sendPacket sent .connectAck 0 0 [] 0
      ({ c with lastActivityNs := nowNs, lastHeartbeatSentNs := nowNs }, .connected, [out])
    else if pkt.hdr.packetType = PktType.reset.code then
      let c := c.triggerReconnect nowNs
      (c, c.state, [])
    else if pkt.hdr.packetType = PktType.reject.code then
      ({ c with rejected := true, state := .disconnected, running := false }, workerState, [])
    else if pkt.hdr.packetType = PktType.disconnect.code then
      ({ c with state := .disconnected, running := false }, workerState, [])
    else
      let (c, out) := c.onSessionPacket pkt nowNs sent
      (c, workerState, out)

/-- One datagram as it is read into `in_buf`. -/
def onDatagram (host : Endian) (c : Client) (workerState : ConnState) (srcAddr : NetAddr)
    (datagram : List UInt8) (nowNs : UInt64) (sent : Bool) : Client × ConnState × List Packet :=
  if !srcAddr.equal c.config.serverAddr then (c, workerState, [])
  else
    let inBuf := datagram.take inBufSize
    match decodeHeader host inBuf with
    | .error _ => (c, workerState, [])
    | .ok hdr => c.handle workerState ⟨hdr, inBuf.drop headerLen⟩ nowNs sent

/-- One turn of the drain loop; the boolean is `false` when the loop ends. -/
def drainStep (c : Client) (workerState : ConnState) (nowNs : UInt64) (sent : Bool) :
    Bool × Client × List Packet :=
  if workerState = .connected ∧ c.sendWin.canSend = true then
    match c.sendQueue.tryPop with
    | (none, sendQueue) => (false, { c with sendQueue }, [])
    | (some item, sendQueue) =>
      let c := { c with sendQueue }
      match c.sendWin.push item.mode item.data item.len.toNat nowNs with
      | .ok (sendWin, seq) =>
        let (c, out) := { c with sendWin }.sendPacket sent .data item.mode seq item.data
          item.len.toNat
        (true, c, [out])
      | .error _ => (true, c, [])
  else (false, c, [])

/-- The retransmission pass. -/
def retransmitStep (c : Client) (workerState : ConnState) (nowNs : UInt64) (sent : Bool) :
    Client × List Packet :=
  if workerState = .connected then
    let (sendWin, rtt, packets) := retransmit c.sendWin c.rtt nowNs c.sessionId
      c.recvWin.getAckInfo
    let ackPending := if sent && !packets.isEmpty then false else c.ackPending
    ({ c with sendWin, rtt, ackPending }, packets)
  else (c, [])

/-- The standalone ACK. -/
def ackStep (c : Client) (workerState : ConnState) (sent : Bool) : Client × List Packet :=
  if workerState = .connected ∧ c.ackPending = true then
    let (c, out) := c.sendPacket sent .ack 0 0 [] 0
    (c, [out])
  else (c, [])

/-- The heartbeat. -/
def heartbeatStep (c : Client) (workerState : ConnState) (nowNs : UInt64) (sent : Bool) :
    Client × List Packet :=
  if workerState = .connected ∧
      nowNs - c.lastHeartbeatSentNs ≥ msToNs c.config.heartbeatIntervalMs then
    let (c, out) := c.sendPacket sent .heartbeat 0 0 [] 0
    ({ c with lastHeartbeatSentNs := nowNs }, [out])
  else (c, [])

/-- The inactivity check, the last part of a turn. -/
def inactivityStep (c : Client) (workerState : ConnState) (nowNs : UInt64) : Client :=
  if workerState = .connected ∧
      nowNs - c.lastActivityNs ≥ msToNs c.config.inactivityTimeoutMs then
    if c.config.disableAutoReconnect then { c with state := .disconnected }
    else c.triggerReconnect nowNs
  else c

end Client

end Rel4u
