import Rel4u.Server.Model

/-!
# Runs of the server

`Server.exec` performs one event: an application call, or one step of the worker, which only runs
while `running` is set. The worker's loops over the sessions are taken slot by slot, and a datagram
is given as the packet it decodes to; one that does not decode changes nothing.

`Server.Moves` is `exec` as a relation, one constructor for each way an event can end, so that a
property of all runs is one proof by cases (`run_induction`).
-/

namespace Rel4u

/-- What can happen at the server. -/
inductive ServerEvent
  | start
  | stop
  | send (clientId : UInt32) (mode : UInt8) (data : List UInt8) (len : ℕ)
  | recv
  | disconnectClient (clientId : UInt32)
  | packet (srcAddr : NetAddr) (pkt : Packet) (nowNs stackAddr : UInt64)
      (callocSend callocRecv sent : Bool)
  | drain (nowNs : UInt64) (sent : Bool)
  | expire (i : ℕ) (nowNs : UInt64)
  | retransmit (i : ℕ) (nowNs : UInt64) (sent : Bool)
  | ack (i : ℕ) (sent : Bool)
  | heartbeat (i : ℕ) (nowNs : UInt64) (sent : Bool)

namespace Server

/-- A step of the worker, which takes none once it has been told to stop. -/
def whileRunning (s : Server) (r : Server × List (NetAddr × Packet)) :
    Server × List (NetAddr × Packet) :=
  if s.running then r else (s, [])

/-- One event: the server after it, and the packets it sends with their destinations. -/
def exec (s : Server) : ServerEvent → Server × List (NetAddr × Packet)
  | .start => (s.start, [])
  | .stop => (s.stop, [])
  | .send clientId mode data len => ((s.send clientId mode data len).2, [])
  | .recv => (s.recv.2, [])
  | .disconnectClient clientId => s.disconnectClient clientId
  | .packet srcAddr pkt nowNs stackAddr callocSend callocRecv sent =>
    s.whileRunning (s.handle srcAddr pkt nowNs stackAddr callocSend callocRecv sent)
  | .drain nowNs sent => s.whileRunning (s.drainStep nowNs sent).2
  | .expire i nowNs => s.whileRunning (s.expireSession i nowNs, [])
  | .retransmit i nowNs sent => s.whileRunning (s.retransmitSession i nowNs sent)
  | .ack i sent => s.whileRunning (s.ackSession i sent)
  | .heartbeat i nowNs sent => s.whileRunning (s.heartbeatSession i nowNs sent)

/-- What a created server is made of. -/
theorem create_some {config : ServerConfig} {a : CreateAllocs} {s : Server}
    (h : create config a = some s) :
    ∃ sendQueue recvQueue table,
      MpmcQueue.init config.withDefaults.memoryMode config.withDefaults.queueFullPolicy
        config.withDefaults.sendQueueCapacity.toNat config.withDefaults.maxSendMemoryBytes
        a.sendRing a.sendMalloc = some sendQueue ∧
      MpmcQueue.init config.withDefaults.memoryMode config.withDefaults.queueFullPolicy
        config.withDefaults.recvQueueCapacity.toNat config.withDefaults.maxRecvMemoryBytes
        a.recvRing a.recvMalloc = some recvQueue ∧
      SessionTable.init config.withDefaults.maxClients config.withDefaults.fullPolicy
        config.withDefaults.windowSize a.table a.sendWindow a.recvWindow = some table ∧
      s = { config := config.withDefaults, running := false, sendQueue, recvQueue, table,
            pendingItem := none } := by
  unfold create at h
  dsimp only at h
  split at h
  · exact absurd h (by simp)
  next sendQueue hsend =>
    split at h
    · exact absurd h (by simp)
    next recvQueue hrecv =>
      split at h
      · exact absurd h (by simp)
      next table htable =>
        exact ⟨sendQueue, recvQueue, table, hsend, hrecv, htable, (Option.some.inj h).symm⟩

/-- A sequence of events. -/
def run (s : Server) (es : List ServerEvent) : Server := es.foldl (fun s e => (s.exec e).1) s

/-- A session that has just been answered. -/
def answered (session : Session) (nowNs : UInt64) (sent : Bool) : Session :=
  (sendPacket { session with lastActivityNs := nowNs, lastHeartbeatSentNs := nowNs } sent
    .connectResp 0 0 [] 0).1

/-- The CONNECT_RESP of a session. -/
def response (session : Session) (nowNs : UInt64) (sent : Bool) : NetAddr × Packet :=
  (sendPacket { session with lastActivityNs := nowNs, lastHeartbeatSentNs := nowNs } sent
    .connectResp 0 0 [] 0).2

/-- A session into whose window an item has been pushed. -/
def afterPush (session : Session) (sendWin : SendWindow) (item : MpmcItem) (seq : UInt32)
    (sent : Bool) : Session × (NetAddr × Packet) :=
  sendPacket { session with sendWin } sent .data item.mode seq item.data item.len.toNat

/-- A session after its retransmission pass, and what the pass sends. -/
def afterRetransmit (session : Session) (nowNs : UInt64) (sent : Bool) :
    Session × List (NetAddr × Packet) :=
  let (sendWin, rtt, packets) := Rel4u.retransmit session.sendWin session.rtt nowNs
    session.sessionId session.recvWin.getAckInfo
  ({ session with
      sendWin
      rtt
      ackPending := if sent && !packets.isEmpty then false else session.ackPending },
    packets.map fun p => (session.addr, p))

theorem packets_afterRetransmit (session : Session) (nowNs : UInt64) (sent : Bool) :
    (afterRetransmit session nowNs sent).2.map Prod.snd =
      (Rel4u.retransmit session.sendWin session.rtt nowNs session.sessionId
        session.recvWin.getAckInfo).2.2 := by
  rw [afterRetransmit, List.map_map]
  exact List.map_id _

/-- A session after its heartbeat. -/
def afterHeartbeat (session : Session) (nowNs : UInt64) (sent : Bool) : Session :=
  { (sendPacket session sent .heartbeat 0 0 [] 0).1 with lastHeartbeatSentNs := nowNs }

/-- The event is a datagram. -/
def isPacket : ServerEvent → Bool
  | .packet .. => true
  | _ => false

/-- The ways an event can end. -/
inductive Moves (s : Server) : ServerEvent → Server → List (NetAddr × Packet) → Prop
  | idle (e : ServerEvent) (hidle : isPacket e = true → s.running = false) : Moves s e s []
  | start : Moves s .start s.start []
  | stop : Moves s .stop s.stop []
  | send (clientId : UInt32) (mode : UInt8) (data : List UInt8) (len : ℕ)
      (hlen : len ≤ maxPayload s.config.mtu) (hrun : s.running = true) :
      Moves s (.send clientId mode data len)
        { s with sendQueue := (s.sendQueue.tryPush (.ofSend clientId mode data len)).2 } []
  | recv : Moves s .recv { s with recvQueue := s.recvQueue.popWait.2 } []
  | kick (clientId : UInt32) (i : ℕ) (hfind : s.table.findById clientId = some i) :
      Moves s (.disconnectClient clientId) { s with table := s.table.free i }
        [((s.table.slot i).addr, barePacket .disconnect (s.table.slot i).sessionId 0)]
  | accept (srcAddr : NetAddr) (pkt : Packet) (nowNs stackAddr : UInt64)
      (callocSend callocRecv sent : Bool) (i : ℕ)
      (htype : pkt.hdr.packetType = PktType.connectReq.code)
      (hfind : s.table.findByAddr srcAddr = some i) :
      Moves s (.packet srcAddr pkt nowNs stackAddr callocSend callocRecv sent)
        { s with table := s.table.setSlot i (answered (s.table.slot i) nowNs sent) }
        [response (s.table.slot i) nowNs sent]
  | reject (srcAddr : NetAddr) (pkt : Packet) (nowNs stackAddr : UInt64)
      (callocSend callocRecv sent : Bool) (table : SessionTable)
      (htype : pkt.hdr.packetType = PktType.connectReq.code)
      (hfind : s.table.findByAddr srcAddr = none)
      (halloc : s.table.allocate srcAddr (newSessionId nowNs stackAddr) callocSend callocRecv =
        (none, table)) :
      Moves s (.packet srcAddr pkt nowNs stackAddr callocSend callocRecv sent)
        { s with table } [(srcAddr, barePacket .reject 0 0)]
  | enroll (srcAddr : NetAddr) (pkt : Packet) (nowNs stackAddr : UInt64)
      (callocSend callocRecv sent : Bool) (slotIdx : ℤ) (session : Session) (table : SessionTable)
      (htype : pkt.hdr.packetType = PktType.connectReq.code)
      (hfind : s.table.findByAddr srcAddr = none)
      (halloc : s.table.allocate srcAddr (newSessionId nowNs stackAddr) callocSend callocRecv =
        (some (slotIdx, session), table)) :
      Moves s (.packet srcAddr pkt nowNs stackAddr callocSend callocRecv sent)
        { s with table := table.setSessionAt slotIdx (answered session nowNs sent) }
        [response session nowNs sent]
  | noSession (srcAddr : NetAddr) (pkt : Packet) (nowNs stackAddr : UInt64)
      (callocSend callocRecv sent : Bool)
      (htype : pkt.hdr.packetType ≠ PktType.connectReq.code)
      (hnone : ∀ i, s.table.findByAddr srcAddr = some i →
        (s.table.slot i).sessionId ≠ pkt.hdr.sessionId) :
      Moves s (.packet srcAddr pkt nowNs stackAddr callocSend callocRecv sent) s
        (resetReply srcAddr pkt.hdr)
  | connectAck (srcAddr : NetAddr) (pkt : Packet) (nowNs stackAddr : UInt64)
      (callocSend callocRecv sent : Bool) (i : ℕ)
      (hfind : s.table.findByAddr srcAddr = some i)
      (hid : (s.table.slot i).sessionId = pkt.hdr.sessionId)
      (htype : pkt.hdr.packetType = PktType.connectAck.code) :
      Moves s (.packet srcAddr pkt nowNs stackAddr callocSend callocRecv sent)
        { s with table := s.table.setSlot i (touched (s.table.slot i) nowNs) } []
  | disconnect (srcAddr : NetAddr) (pkt : Packet) (nowNs stackAddr : UInt64)
      (callocSend callocRecv sent : Bool) (i : ℕ)
      (hfind : s.table.findByAddr srcAddr = some i)
      (hid : (s.table.slot i).sessionId = pkt.hdr.sessionId)
      (htype : pkt.hdr.packetType = PktType.disconnect.code) :
      Moves s (.packet srcAddr pkt nowNs stackAddr callocSend callocRecv sent)
        { s with table := (s.table.setSlot i (touched (s.table.slot i) nowNs)).free i } []
  | process (srcAddr : NetAddr) (pkt : Packet) (nowNs stackAddr : UInt64)
      (callocSend callocRecv sent : Bool) (i : ℕ)
      (hfind : s.table.findByAddr srcAddr = some i)
      (hid : (s.table.slot i).sessionId = pkt.hdr.sessionId)
      (htype : pkt.hdr.packetType ≠ PktType.connectReq.code ∧
        pkt.hdr.packetType ≠ PktType.connectAck.code ∧
        pkt.hdr.packetType ≠ PktType.disconnect.code) :
      Moves s (.packet srcAddr pkt nowNs stackAddr callocSend callocRecv sent)
        { s with
          table := s.table.setSlot i
            (processPacket (touched (s.table.slot i) nowNs) pkt nowNs sent).1
          recvQueue := pushReady
            (processPacket (touched (s.table.slot i) nowNs) pkt nowNs sent).1.clientId s.recvQueue
            (processPacket (touched (s.table.slot i) nowNs) pkt nowNs sent).2.1 }
        (processPacket (touched (s.table.slot i) nowNs) pkt nowNs sent).2.2
  | drainNone (nowNs : UInt64) (sent : Bool) (htake : s.takeItem.1 = none) :
      Moves s (.drain nowNs sent) s.takeItem.2 []
  | drainDiscard (nowNs : UInt64) (sent : Bool) (item : MpmcItem)
      (htake : s.takeItem.1 = some item)
      (hnot : ∀ i, s.table.findById item.clientId = some i →
        (s.table.slot i).state ≠ .connected ∨
          ∃ e, (s.table.slot i).sendWin.push item.mode item.data item.len.toNat nowNs = .error e) :
      Moves s (.drain nowNs sent) { s.takeItem.2 with table := s.table, pendingItem := none } []
  | drainHold (nowNs : UInt64) (sent : Bool) (item : MpmcItem)
      (htake : s.takeItem.1 = some item) : Moves s (.drain nowNs sent) s.takeItem.2 []
  | drainPush (nowNs : UInt64) (sent : Bool) (item : MpmcItem) (i : ℕ) (sendWin : SendWindow)
      (seq : UInt32) (htake : s.takeItem.1 = some item)
      (hfind : s.table.findById item.clientId = some i)
      (hstate : (s.table.slot i).state = .connected)
      (hcan : (s.table.slot i).sendWin.canSend = true)
      (hpush : (s.table.slot i).sendWin.push item.mode item.data item.len.toNat nowNs =
        .ok (sendWin, seq)) :
      Moves s (.drain nowNs sent)
        { s.takeItem.2 with
          table := s.table.setSlot i (afterPush (s.table.slot i) sendWin item seq sent).1
          pendingItem := none }
        [(afterPush (s.table.slot i) sendWin item seq sent).2]
  | expire (i : ℕ) (nowNs : UInt64) :
      Moves s (.expire i nowNs) { s with table := s.table.free i } []
  | retransmit (i : ℕ) (nowNs : UInt64) (sent : Bool)
      (hstate : (s.table.slot i).state = .connected) :
      Moves s (.retransmit i nowNs sent)
        { s with table := s.table.setSlot i (afterRetransmit (s.table.slot i) nowNs sent).1 }
        (afterRetransmit (s.table.slot i) nowNs sent).2
  | ack (i : ℕ) (sent : Bool) (hstate : (s.table.slot i).state = .connected) :
      Moves s (.ack i sent)
        { s with table := s.table.setSlot i (sendPacket (s.table.slot i) sent .ack 0 0 [] 0).1 }
        [(sendPacket (s.table.slot i) sent .ack 0 0 [] 0).2]
  | heartbeat (i : ℕ) (nowNs : UInt64) (sent : Bool)
      (hstate : (s.table.slot i).state = .connected) :
      Moves s (.heartbeat i nowNs sent)
        { s with table := s.table.setSlot i (afterHeartbeat (s.table.slot i) nowNs sent) }
        [(sendPacket (s.table.slot i) sent .heartbeat 0 0 [] 0).2]

section Moves

variable (s : Server)

theorem moves_handle (srcAddr : NetAddr) (pkt : Packet) (nowNs stackAddr : UInt64)
    (callocSend callocRecv sent : Bool) :
    s.Moves (.packet srcAddr pkt nowNs stackAddr callocSend callocRecv sent)
      (s.handle srcAddr pkt nowNs stackAddr callocSend callocRecv sent).1
      (s.handle srcAddr pkt nowNs stackAddr callocSend callocRecv sent).2 := by
  by_cases hreq : pkt.hdr.packetType = PktType.connectReq.code
  · simp only [handle, if_pos hreq, onConnectReq]
    cases hfind : s.table.findByAddr srcAddr with
    | some i =>
      have h0 : (0 : ℤ) ≤ i := by omega
      simp only [acceptConnect, SessionTable.setSessionAt, if_pos h0]
      exact .accept srcAddr pkt nowNs stackAddr callocSend callocRecv sent i hreq hfind
    | none =>
      dsimp only
      split
      · next table halloc =>
        exact .reject srcAddr pkt nowNs stackAddr callocSend callocRecv sent table hreq hfind halloc
      · next slotIdx session table halloc =>
        exact .enroll srcAddr pkt nowNs stackAddr callocSend callocRecv sent slotIdx session table
          hreq hfind halloc
  · simp only [handle, if_neg hreq]
    cases hfind : s.table.findByAddr srcAddr with
    | none =>
      exact .noSession srcAddr pkt nowNs stackAddr callocSend callocRecv sent hreq fun i hi => by
        rw [hfind] at hi; exact absurd hi (by simp)
    | some i =>
      dsimp only
      by_cases hid : (s.table.slot i).sessionId = pkt.hdr.sessionId
      · rw [if_neg (not_not.2 hid)]
        unfold onSessionPacket
        dsimp only
        split_ifs with hack hdis
        · exact .connectAck srcAddr pkt nowNs stackAddr callocSend callocRecv sent i hfind hid hack
        · exact .disconnect srcAddr pkt nowNs stackAddr callocSend callocRecv sent i hfind hid hdis
        · exact .process srcAddr pkt nowNs stackAddr callocSend callocRecv sent i hfind hid
            ⟨hreq, hack, hdis⟩
      · rw [if_pos hid]
        refine .noSession srcAddr pkt nowNs stackAddr callocSend callocRecv sent hreq fun j hj => ?_
        rw [hfind, Option.some.injEq] at hj
        exact hj ▸ hid

@[simp] theorem takeItem_table : s.takeItem.2.table = s.table := by
  unfold takeItem
  split <;> rfl

theorem moves_drainStep (nowNs : UInt64) (sent : Bool) :
    s.Moves (.drain nowNs sent) (s.drainStep nowNs sent).2.1 (s.drainStep nowNs sent).2.2 := by
  have htable := s.takeItem_table
  unfold drainStep
  split
  · next s' htake =>
    have h2 : s.takeItem.2 = s' := by rw [htake]
    rw [← h2]
    exact .drainNone nowNs sent (by rw [htake])
  · next item s' htake =>
    have h1 : s.takeItem.1 = some item := by rw [htake]
    have h2 : s' = s.takeItem.2 := by rw [htake]
    subst h2
    unfold drainItem
    rw [htable]
    cases hfind : s.table.findById item.clientId with
    | none =>
      dsimp only
      refine .drainDiscard nowNs sent item h1 fun i hi => ?_
      rw [hfind] at hi
      exact absurd hi (by simp)
    | some i =>
      have hnot : ∀ {P : ℕ → Prop}, P i → ∀ j, s.table.findById item.clientId = some j → P j := by
        intro P hP j hj
        rw [hfind, Option.some.injEq] at hj
        exact hj ▸ hP
      dsimp only
      split_ifs with hstate hcan
      · split
        · next sendWin seq hpush =>
          exact .drainPush nowNs sent item i sendWin seq h1 hfind hstate hcan hpush
        · next e hpush => exact .drainDiscard nowNs sent item h1 (hnot (Or.inr ⟨e, hpush⟩))
      · exact .drainHold nowNs sent item h1
      · exact .drainDiscard nowNs sent item h1 (hnot (Or.inl hstate))

/-- What an event does, guards included. -/
theorem moves_exec (e : ServerEvent) : s.Moves e (s.exec e).1 (s.exec e).2 := by
  cases e with
  | start => exact .start
  | stop => exact .stop
  | send clientId mode data len =>
    simp only [exec, Server.send]
    split_ifs with hlen hrun
    · exact .idle _ nofun
    · exact .idle _ nofun
    · have := Moves.send (s := s) clientId mode data len (not_lt.1 hlen) (by simpa using hrun)
      split <;> next heq =>
        rw [heq] at this
        exact this
  | recv => exact .recv
  | disconnectClient clientId =>
    simp only [exec, Server.disconnectClient]
    cases hfind : s.table.findById clientId with
    | none => exact .idle _ nofun
    | some i => exact .kick clientId i hfind
  | packet srcAddr pkt nowNs stackAddr callocSend callocRecv sent =>
    simp only [exec, whileRunning]
    split_ifs with hrun
    · exact s.moves_handle srcAddr pkt nowNs stackAddr callocSend callocRecv sent
    · exact .idle _ fun _ => by simpa using hrun
  | drain nowNs sent =>
    simp only [exec, whileRunning]
    split_ifs
    · exact s.moves_drainStep nowNs sent
    · exact .idle _ nofun
  | expire i nowNs =>
    simp only [exec, whileRunning, expireSession]
    split_ifs
    · exact .expire i nowNs
    · exact .idle _ nofun
    · exact .idle _ nofun
  | retransmit i nowNs sent =>
    simp only [exec, whileRunning, retransmitSession]
    by_cases hrun : s.running = true
    · rw [if_pos hrun]
      by_cases hstate : (s.table.slot i).state = .connected
      · rw [if_pos hstate]
        exact .retransmit i nowNs sent hstate
      · rw [if_neg hstate]
        exact .idle _ nofun
    · rw [if_neg hrun]
      exact .idle _ nofun
  | ack i sent =>
    simp only [exec, whileRunning, ackSession]
    split_ifs with hrun hstate
    · exact .ack i sent hstate.1
    · exact .idle _ nofun
    · exact .idle _ nofun
  | heartbeat i nowNs sent =>
    simp only [exec, whileRunning, heartbeatSession]
    split_ifs with hrun hstate
    · exact .heartbeat i nowNs sent hstate.1
    · exact .idle _ nofun
    · exact .idle _ nofun

end Moves

/-- No event changes the configuration. -/
theorem Moves.config_eq {s s' : Server} {e : ServerEvent} {out : List (NetAddr × Packet)}
    (hmove : s.Moves e s' out) : s'.config = s.config := by
  have htake : s.takeItem.2.config = s.config := by
    unfold Server.takeItem
    split <;> rfl
  cases hmove with
  | stop =>
    unfold Server.stop
    split_ifs <;> rfl
  | drainNone | drainDiscard | drainHold | drainPush => exact htake
  | idle | start | send | recv | kick | accept | reject | enroll | noSession | connectAck
  | disconnect | process | expire | retransmit | ack | heartbeat => rfl

/-- **An invariant of every event is an invariant of every run.** -/
theorem run_induction {P : Server → Prop} {es : List ServerEvent}
    (hstep : ∀ e ∈ es, ∀ {s s' out}, P s → Moves s e s' out → P s') {s : Server} (hs : P s) :
    P (s.run es) := by
  induction es generalizing s with
  | nil => exact hs
  | cons e es ih =>
    exact ih (fun e' he' => hstep e' (List.mem_cons_of_mem e he'))
      (hstep e List.mem_cons_self hs (s.moves_exec e))

end Server

end Rel4u
