import Rel4u.Channel.Acts
import Rel4u.System.Model

/-!
# The client as a party of its session

An event of the client does one of three things to its part of a session (`ClientProc.Effect`). It
stays in the session, if it has one, and does what a party does; or it joins the session that a
CONNECT_RESP names, with the fresh windows it has kept since it left the last one; or it leaves, and
resets its windows. Which of the three is decided by the worker's local copy of the state, and
`ClientProc.Ready` says that the copy agrees with the session id: `connected` is never seen without
a session, nor `connecting` with one.
-/

namespace Rel4u

/-- The packets of one session. -/
def ofSession (id : UInt32) (l : List Packet) : List Packet :=
  l.filter fun pkt => pkt.hdr.sessionId = id

theorem mem_ofSession {id : UInt32} {l : List Packet} {pkt : Packet} :
    pkt ∈ ofSession id l ↔ pkt ∈ l ∧ pkt.hdr.sessionId = id := by
  rw [ofSession, List.mem_filter, decide_eq_true_eq]

/-- The client as a party of its session. -/
def Client.party (c : Client) (sent : List Message) (got : List RecvSlot) : Party :=
  { send := c.sendWin, recv := c.recvWin, sent, got }

theorem Client.party_congr {c c' : Client} (hsend : c'.sendWin = c.sendWin)
    (hrecv : c'.recvWin = c.recvWin) (sent : List Message) (got : List RecvSlot) :
    c'.party sent got = c.party sent got := by
  rw [Client.party, Client.party, hsend, hrecv]

theorem code_ne_data (type : PktType) (h : type ≠ .data) : type.code ≠ PktType.data.code :=
  fun heq => h (PktType.code_injective heq)

/-! ### State and session id -/

/-- A state and a session id that go together. -/
structure Agrees (state : ConnState) (id : UInt32) : Prop where
  connected : state = .connected → id ≠ 0
  connecting : state = .connecting → id = 0

theorem agrees_disconnected (id : UInt32) : Agrees .disconnected id :=
  ⟨by simp, by simp⟩

theorem agrees_connecting : Agrees .connecting 0 := ⟨by simp, by simp⟩

/-- The worker's local copy of the state, while it has one. -/
def WorkerPc.workerState : WorkerPc → Option ConnState
  | .poll workerState | .drain workerState | .timers workerState => some workerState
  | .stopped | .head => none

/-- Both the state and the worker's copy agree with the session id. -/
structure ClientProc.Ready (p : ClientProc) : Prop where
  state : Agrees p.client.state p.client.sessionId
  copy : ∀ st ∈ p.pc.workerState, Agrees st p.client.sessionId

namespace Client

section Ready

variable {c : Client} {workerState : ConnState}

theorem agrees_triggerReconnect (c : Client) (nowNs : UInt64) :
    Agrees (c.triggerReconnect nowNs).state (c.triggerReconnect nowNs).sessionId := by
  unfold triggerReconnect
  split_ifs
  · exact agrees_disconnected _
  · exact agrees_connecting

/-- A reconnect resets the windows and leaves the session, unless it is disabled. -/
theorem triggerReconnect_windows (c : Client) (nowNs : UInt64) :
    ((c.triggerReconnect nowNs).sessionId = c.sessionId ∧
        (c.triggerReconnect nowNs).sendWin = c.sendWin ∧
        (c.triggerReconnect nowNs).recvWin = c.recvWin) ∨
      ((c.triggerReconnect nowNs).sessionId = 0 ∧
        (c.triggerReconnect nowNs).sendWin = (c.sendWin.reset 1).2 ∧
        (c.triggerReconnect nowNs).recvWin = (c.recvWin.reset 1).2) := by
  unfold triggerReconnect
  split_ifs
  · exact Or.inl ⟨rfl, rfl, rfl⟩
  · exact Or.inr ⟨rfl, rfl, rfl⟩

theorem handshake_fields (c : Client) (workerState : ConnState) (last nowNs : UInt64)
    (sent : Bool) :
    (c.handshake workerState last nowNs sent).1.state = c.state ∧
      (c.handshake workerState last nowNs sent).1.sessionId = c.sessionId := by
  unfold handshake
  split_ifs <;> exact ⟨rfl, rfl⟩

theorem onSessionPacket_fields (c : Client) (pkt : Packet) (nowNs : UInt64) (sent : Bool) :
    (c.onSessionPacket pkt nowNs sent).1.state = c.state ∧
      (c.onSessionPacket pkt nowNs sent).1.sessionId = c.sessionId := by
  unfold onSessionPacket
  dsimp only
  split_ifs <;> exact ⟨rfl, rfl⟩

theorem drainStep_fields (c : Client) (workerState : ConnState) (nowNs : UInt64) (sent : Bool) :
    (c.drainStep workerState nowNs sent).2.1.state = c.state ∧
      (c.drainStep workerState nowNs sent).2.1.sessionId = c.sessionId := by
  unfold drainStep
  split_ifs
  · split
    · exact ⟨rfl, rfl⟩
    · dsimp only
      split <;> exact ⟨rfl, rfl⟩
  · exact ⟨rfl, rfl⟩

/-- The timers up to the inactivity check. -/
def beat (c : Client) (workerState : ConnState) (nowNs : UInt64) (sent : Bool) : Client :=
  (((c.retransmitStep workerState nowNs sent).1.ackStep workerState sent).1.heartbeatStep
    workerState nowNs sent).1

theorem retransmitStep_fields (c : Client) (workerState : ConnState) (nowNs : UInt64)
    (sent : Bool) :
    (c.retransmitStep workerState nowNs sent).1.state = c.state ∧
      (c.retransmitStep workerState nowNs sent).1.sessionId = c.sessionId ∧
      (c.retransmitStep workerState nowNs sent).1.recvWin = c.recvWin ∧
      (c.retransmitStep workerState nowNs sent).1.sendWin.nextSeq = c.sendWin.nextSeq := by
  unfold retransmitStep
  split_ifs
  · exact ⟨rfl, rfl, rfl, SendWindow.static_nextSeq.retransmit _ _ _ _ _⟩
  · exact ⟨rfl, rfl, rfl, rfl⟩

theorem ackStep_fields (c : Client) (workerState : ConnState) (sent : Bool) :
    (c.ackStep workerState sent).1.state = c.state ∧
      (c.ackStep workerState sent).1.sessionId = c.sessionId ∧
      (c.ackStep workerState sent).1.recvWin = c.recvWin ∧
      (c.ackStep workerState sent).1.sendWin = c.sendWin := by
  unfold ackStep
  split_ifs <;> exact ⟨rfl, rfl, rfl, rfl⟩

theorem heartbeatStep_fields (c : Client) (workerState : ConnState) (nowNs : UInt64)
    (sent : Bool) :
    (c.heartbeatStep workerState nowNs sent).1.state = c.state ∧
      (c.heartbeatStep workerState nowNs sent).1.sessionId = c.sessionId ∧
      (c.heartbeatStep workerState nowNs sent).1.recvWin = c.recvWin ∧
      (c.heartbeatStep workerState nowNs sent).1.sendWin = c.sendWin := by
  unfold heartbeatStep
  split_ifs <;> exact ⟨rfl, rfl, rfl, rfl⟩

theorem beat_fields (c : Client) (workerState : ConnState) (nowNs : UInt64) (sent : Bool) :
    (c.beat workerState nowNs sent).state = c.state ∧
      (c.beat workerState nowNs sent).sessionId = c.sessionId ∧
      (c.beat workerState nowNs sent).recvWin = c.recvWin ∧
      (c.beat workerState nowNs sent).sendWin.nextSeq = c.sendWin.nextSeq := by
  unfold beat
  obtain ⟨a1, a2, a3, a4⟩ := c.retransmitStep_fields workerState nowNs sent
  generalize (c.retransmitStep workerState nowNs sent).1 = c₁ at a1 a2 a3 a4
  obtain ⟨b1, b2, b3, b4⟩ := c₁.ackStep_fields workerState sent
  generalize (c₁.ackStep workerState sent).1 = c₂ at b1 b2 b3 b4
  obtain ⟨d1, d2, d3, d4⟩ := c₂.heartbeatStep_fields workerState nowNs sent
  exact ⟨(d1.trans b1).trans a1, (d2.trans b2).trans a2, (d3.trans b3).trans a3,
    (congrArg SendWindow.nextSeq (d4.trans b4)).trans a4⟩

/-- What the inactivity check does. -/
theorem inactivityStep_cases (c : Client) (workerState : ConnState) (nowNs : UInt64) :
    c.inactivityStep workerState nowNs = c ∨
      c.inactivityStep workerState nowNs = { c with state := .disconnected } ∨
      (c.config.disableAutoReconnect = false ∧
        c.inactivityStep workerState nowNs = c.triggerReconnect nowNs) := by
  unfold inactivityStep
  split_ifs with h1 h2
  · exact Or.inr (Or.inl rfl)
  · exact Or.inr (Or.inr ⟨by simpa using h2, rfl⟩)
  · exact Or.inl rfl

/-- **The ways a packet can end at the client.** -/
inductive Handles (c : Client) (workerState : ConnState) (srcAddr : NetAddr) (pkt : Packet)
    (nowNs : UInt64) (sent : Bool) : Client → ConnState → List Packet → Prop
  | ignored : Handles c workerState srcAddr pkt nowNs sent c workerState []
  | joined (haddr : srcAddr.equal c.config.serverAddr = true) (hstate : workerState = .connecting)
      (htype : pkt.hdr.packetType = PktType.connectResp.code) (hid : pkt.hdr.sessionId ≠ 0) :
      Handles c workerState srcAddr pkt nowNs sent
        { c with
          sessionId := pkt.hdr.sessionId
          state := .connected
          ackPending := if sent then false else c.ackPending
          lastActivityNs := nowNs
          lastHeartbeatSentNs := nowNs }
        .connected
        [mkPacket .connectAck 0 pkt.hdr.sessionId 0 c.recvWin.getAckInfo [] 0]
  | reset (haddr : srcAddr.equal c.config.serverAddr = true) (hstate : workerState = .connected)
      (htype : pkt.hdr.packetType = PktType.reset.code) (hid : pkt.hdr.sessionId = c.sessionId) :
      Handles c workerState srcAddr pkt nowNs sent
        ({ c with lastActivityNs := nowNs }.triggerReconnect nowNs)
        ({ c with lastActivityNs := nowNs }.triggerReconnect nowNs).state []
  | closed (rejected : Bool) :
      Handles c workerState srcAddr pkt nowNs sent
        { c with lastActivityNs := nowNs, rejected, state := .disconnected, running := false }
        workerState []
  | session (haddr : srcAddr.equal c.config.serverAddr = true) (hstate : workerState = .connected)
      (hid : pkt.hdr.sessionId = c.sessionId) :
      Handles c workerState srcAddr pkt nowNs sent
        ({ c with lastActivityNs := nowNs }.onSessionPacket pkt nowNs sent).1 workerState
        ({ c with lastActivityNs := nowNs }.onSessionPacket pkt nowNs sent).2

theorem handles_onPacket (c : Client) (workerState : ConnState) (srcAddr : NetAddr) (pkt : Packet)
    (nowNs : UInt64) (sent : Bool) :
    Handles c workerState srcAddr pkt nowNs sent
      (c.onPacket workerState srcAddr pkt nowNs sent).1
      (c.onPacket workerState srcAddr pkt nowNs sent).2.1
      (c.onPacket workerState srcAddr pkt nowNs sent).2.2 := by
  unfold onPacket
  cases haddr : srcAddr.equal c.config.serverAddr with
  | false => exact .ignored
  | true =>
    rw [if_neg (by simp)]
    unfold handle
    cases hadmits : c.admits workerState pkt.hdr with
    | false => exact .ignored
    | true =>
      rw [if_neg (by simp)]
      have hcode : PktType.connectResp.code ≠ PktType.reject.code := by decide
      have hcode' : PktType.reset.code ≠ PktType.reject.code ∧
          PktType.reset.code ≠ PktType.connectResp.code := by decide
      dsimp only
      by_cases hresp : pkt.hdr.packetType = PktType.connectResp.code
      · rw [if_pos hresp]
        simp only [admits, hresp, if_neg hcode, if_true, Bool.and_eq_true,
          decide_eq_true_eq] at hadmits
        exact .joined haddr hadmits.1 hresp hadmits.2
      rw [if_neg hresp]
      by_cases hreset : pkt.hdr.packetType = PktType.reset.code
      · rw [if_pos hreset]
        simp only [admits, hreset, if_neg hcode'.1, if_neg hcode'.2, Bool.and_eq_true,
          decide_eq_true_eq] at hadmits
        exact .reset haddr hadmits.1 hreset hadmits.2
      rw [if_neg hreset]
      by_cases hreject : pkt.hdr.packetType = PktType.reject.code
      · rw [if_pos hreject]
        exact .closed true
      rw [if_neg hreject]
      by_cases hdis : pkt.hdr.packetType = PktType.disconnect.code
      · rw [if_pos hdis]
        exact .closed c.rejected
      rw [if_neg hdis]
      simp only [admits, if_neg hreject, if_neg hresp, Bool.and_eq_true,
        decide_eq_true_eq] at hadmits
      exact .session haddr hadmits.1 hadmits.2

end Ready

end Client

/-- **Every event keeps the state and its copy in agreement with the session id.** -/
theorem ClientProc.Ready.moves {p p' : ClientProc} {e : ClientEvent} {out : List Packet}
    (hp : p.Ready) (h : p.Moves e p' out) : p'.Ready := by
  cases h with
  | send mode data len =>
    have hfields : (p.client.send mode data len).2.state = p.client.state ∧
        (p.client.send mode data len).2.sessionId = p.client.sessionId := by
      unfold Client.send
      split_ifs
      · exact ⟨rfl, rfl⟩
      · exact ⟨rfl, rfl⟩
      · exact ⟨rfl, rfl⟩
      · split <;> exact ⟨rfl, rfl⟩
    refine ⟨?_, ?_⟩ <;> rw [hfields.2]
    · rw [hfields.1]
      exact hp.state
    · exact hp.copy
  | recv => exact ⟨hp.state, hp.copy⟩
  | disconnectBegin =>
    unfold Client.disconnectBegin
    split_ifs
    · exact ⟨⟨by simp, by simp⟩, hp.copy⟩
    · exact hp
  | disconnectEnd hpc =>
    have hcopy : p.pc.workerState = none := by rw [hpc]; rfl
    refine ⟨?_, by simp [hcopy]⟩
    unfold Client.disconnectEnd
    split_ifs <;> exact agrees_disconnected _
  | connect nowNs ok hpc hstarted hstate =>
    unfold Client.connectBegin
    cases ok with
    | true => exact ⟨agrees_connecting, by simp [WorkerPc.workerState]⟩
    | false =>
      refine ⟨?_, by simp [WorkerPc.workerState]⟩
      show Agrees p.client.state 0
      rw [hstate]
      exact agrees_disconnected 0
  | turn nowNs sent =>
    obtain ⟨h1, h2⟩ := p.client.handshake_fields p.client.state p.lastConnectReqNs nowNs sent
    refine ⟨?_, ?_⟩
    · rw [h1, h2]
      exact hp.state
    · intro st hst
      rw [← Option.mem_some.1 hst, h2]
      exact hp.state
  | stop => exact ⟨hp.state, by simp [WorkerPc.workerState]⟩
  | packet srcAddr pkt nowNs sent workerState hpc =>
    have hcopy : Agrees workerState p.client.sessionId := hp.copy _ (by rw [hpc]; rfl)
    have hhandles := p.client.handles_onPacket workerState srcAddr pkt nowNs sent
    generalize p.client.onPacket workerState srcAddr pkt nowNs sent = r at hhandles ⊢
    obtain ⟨c, st, out⟩ := r
    suffices h : Agrees c.state c.sessionId ∧ Agrees st c.sessionId from
      ⟨h.1, fun st' hst' => Option.mem_some.1 hst' ▸ h.2⟩
    cases hhandles with
    | ignored => exact ⟨hp.state, hcopy⟩
    | joined haddr hstate htype hid => exact ⟨⟨fun _ => hid, by simp⟩, ⟨fun _ => hid, by simp⟩⟩
    | reset => exact ⟨Client.agrees_triggerReconnect _ _, Client.agrees_triggerReconnect _ _⟩
    | closed => exact ⟨agrees_disconnected _, hcopy⟩
    | session =>
      obtain ⟨h1, h2⟩ := Client.onSessionPacket_fields { p.client with lastActivityNs := nowNs } pkt
        nowNs sent
      rw [h1, h2]
      exact ⟨hp.state, hcopy⟩
  | endPoll workerState hpc => exact ⟨hp.state, fun st hst => hp.copy st (by rw [hpc]; exact hst)⟩
  | drain nowNs sent workerState =>
    obtain ⟨h1, h2⟩ := p.client.drainStep_fields workerState nowNs sent
    refine ⟨?_, ?_⟩ <;> rw [h2]
    · rw [h1]
      exact hp.state
    · exact hp.copy
  | endDrain workerState hpc =>
    exact ⟨hp.state, fun st hst => hp.copy st (by rw [hpc]; exact hst)⟩
  | timers nowNs sent workerState =>
    obtain ⟨h1, h2, -⟩ := p.client.beat_fields workerState nowNs sent
    refine ⟨?_, by simp [WorkerPc.workerState]⟩
    show Agrees ((p.client.beat workerState nowNs sent).inactivityStep workerState nowNs).state
      ((p.client.beat workerState nowNs sent).inactivityStep workerState nowNs).sessionId
    rcases (p.client.beat workerState nowNs sent).inactivityStep_cases workerState nowNs with
      h | h | ⟨-, h⟩ <;> rw [h]
    · rw [h1, h2]
      exact hp.state
    · exact agrees_disconnected _
    · exact Client.agrees_triggerReconnect _ _

/-! ### What the client does as a party -/

namespace Client

section Acts

variable {c : Client} {inbox : List Packet}

/-- A header that is sent. -/
theorem acts_sendPacket (c : Client) (sent : Bool) {type : PktType} (htype : type ≠ .data)
    (msgs : List Message) (got : List RecvSlot) :
    Acts c.sessionId inbox (c.party msgs got) ((c.sendPacket sent type 0 0 [] 0).1.party msgs got)
      [(c.sendPacket sent type 0 0 [] 0).2] :=
  .emit (c.party msgs got) (c.sendPacket sent type 0 0 [] 0).2 rfl
    (code_ne_data type htype) (Or.inl rfl)

theorem acts_onSessionPacket {pkt : Packet} (hmem : pkt ∈ inbox) (nowNs : UInt64) (sent : Bool)
    (msgs : List Message) (got : List RecvSlot) :
    ∃ got', Acts c.sessionId inbox (c.party msgs got)
      ((c.onSessionPacket pkt nowNs sent).1.party msgs got')
      (c.onSessionPacket pkt nowNs sent).2 := by
  have hack : Acts c.sessionId inbox _ _ [] := .ack (c.party msgs got) pkt hmem nowNs c.rtt
  unfold onSessionPacket
  dsimp only
  by_cases hbeat : pkt.hdr.packetType = PktType.heartbeat.code
  · have hdata : pkt.hdr.packetType ≠ PktType.data.code := by rw [hbeat]; decide
    simp only [if_pos hbeat, if_neg hdata]
    refine ⟨got, Acts.trans hack ?_⟩
    exact acts_sendPacket { c with
      sendWin := (c.sendWin.onAck pkt.hdr.ackNum pkt.hdr.sackMask nowNs c.rtt).1
      rtt := (c.sendWin.onAck pkt.hdr.ackNum pkt.hdr.sackMask nowNs c.rtt).2 } sent
      (by decide) msgs got
  · simp only [if_neg hbeat]
    split_ifs with hdata
    · exact ⟨_, Acts.trans hack (Acts.data _ pkt hmem hdata)⟩
    · exact ⟨got, hack⟩

/-- A turn of the drain loop. -/
theorem acts_drainStep {nowNs : UInt64} {sent : Bool} {workerState : ConnState}
    (hshort : (c.drainStep workerState nowNs sent).2.1.sendWin.nextSeq.toNat ≤ 2 ^ 30)
    (msgs : List Message) (got : List RecvSlot) :
    Acts c.sessionId inbox (c.party msgs got)
      ((c.drainStep workerState nowNs sent).2.1.party (msgs ++ c.pushes workerState nowNs) got)
      (c.drainStep workerState nowNs sent).2.2 := by
  have hrefl : ∀ c' : Client, c'.sendWin = c.sendWin → c'.recvWin = c.recvWin →
      Acts c.sessionId inbox (c.party msgs got) (c'.party (msgs ++ []) got) [] := by
    intro c' h1 h2
    rw [List.append_nil, party_congr h1 h2]
    exact .refl _
  unfold drainStep pushes at *
  by_cases hguard : workerState = .connected ∧ c.sendWin.canSend = true
  · rw [if_pos hguard] at hshort
    rw [if_pos hguard, if_pos hguard]
    cases hpop : c.sendQueue.tryPop with
    | mk item sendQueue =>
      rw [hpop] at hshort
      cases item with
      | none => exact hrefl _ rfl rfl
      | some item =>
        dsimp only at hshort ⊢
        cases hpush : c.sendWin.push item.mode item.data item.len.toNat nowNs with
        | error e => exact hrefl _ rfl rfl
        | ok r =>
          obtain ⟨sendWin, seq⟩ := r
          rw [hpush] at hshort
          dsimp only at hshort ⊢
          by_cases hmode : Reliable item.mode
          · rw [if_pos hmode]
            exact .push (c.party msgs got) item.mode item.data item.len.toNat nowNs sendWin seq
              hmode hpush hshort
          · rw [if_neg hmode, List.append_nil]
            exact .pushUnreliable (c.party msgs got) item.mode item.data item.len.toNat nowNs
              sendWin seq hmode hpush
  · rw [if_neg hguard, if_neg hguard]
    exact hrefl c rfl rfl

/-- The timers up to the inactivity check. -/
theorem acts_beat (c : Client) (inbox : List Packet) (workerState : ConnState) (nowNs : UInt64)
    (sent : Bool) (msgs : List Message) (got : List RecvSlot) :
    Acts c.sessionId inbox (c.party msgs got) ((c.beat workerState nowNs sent).party msgs got)
      (c.timers workerState nowNs sent).2 := by
  have h1 : Acts c.sessionId inbox (c.party msgs got)
      ((c.retransmitStep workerState nowNs sent).1.party msgs got)
      (c.retransmitStep workerState nowNs sent).2 := by
    unfold retransmitStep
    split_ifs
    · exact .retransmit (c.party msgs got) c.rtt nowNs
    · exact .refl _
  have h2 : ∀ c : Client, Acts c.sessionId inbox (c.party msgs got)
      ((c.ackStep workerState sent).1.party msgs got) (c.ackStep workerState sent).2 := by
    intro c
    unfold ackStep
    split_ifs
    · exact acts_sendPacket c sent (by decide) msgs got
    · exact .refl _
  have h3 : ∀ c : Client, Acts c.sessionId inbox (c.party msgs got)
      ((c.heartbeatStep workerState nowNs sent).1.party msgs got)
      (c.heartbeatStep workerState nowNs sent).2 := by
    intro c
    unfold heartbeatStep
    split_ifs
    · exact acts_sendPacket c sent (by decide) msgs got
    · exact .refl _
  have hid₁ := (c.retransmitStep_fields workerState nowNs sent).2.1
  have hid₂ := ((c.retransmitStep workerState nowNs sent).1.ackStep_fields workerState sent).2.1
  have h2' := h2 (c.retransmitStep workerState nowNs sent).1
  have h3' := h3 ((c.retransmitStep workerState nowNs sent).1.ackStep workerState sent).1
  rw [hid₂] at h3'
  rw [hid₁] at h2' h3'
  exact (h1.trans h2').trans h3'

/-- A worker that is not connected leaves the windows alone. -/
theorem beat_of_ne {workerState : ConnState} (h : workerState ≠ .connected) (c : Client)
    (nowNs : UInt64) (sent : Bool) :
    (c.beat workerState nowNs sent).sendWin = c.sendWin ∧
      (c.beat workerState nowNs sent).recvWin = c.recvWin := by
  have hstep : (c.retransmitStep workerState nowNs sent).1 = c := by
    rw [retransmitStep, if_neg h]
  obtain ⟨-, -, h1, h2⟩ := c.ackStep_fields workerState sent
  obtain ⟨-, -, h3, h4⟩ :=
    (c.ackStep workerState sent).1.heartbeatStep_fields workerState nowNs sent
  rw [beat, hstep]
  exact ⟨h4.trans h2, h3.trans h1⟩

end Acts

end Client

namespace ClientProc

/-- **What an event of the client is for its session**, given the packets the server has sent. -/
inductive Effect (mail : List Packet) (p : ClientProc) (e : ClientEvent) (p' : ClientProc)
    (out : List Packet) : Prop
  | stay (hid : p'.client.sessionId = p.client.sessionId)
      (hacts : ∀ msgs got, ∃ got',
        Acts p.client.sessionId (ofSession p.client.sessionId mail) (p.client.party msgs got)
          (p'.client.party (msgs ++ p.pushes e) got') out)
      (hzero : p.client.sessionId = 0 → p.pushes e = [] ∧
        p'.client.sendWin = p.client.sendWin ∧ p'.client.recvWin = p.client.recvWin)
  | join (pkt : Packet) (hmem : pkt ∈ mail) (hne : pkt.hdr.sessionId ≠ 0)
      (hzero : p.client.sessionId = 0) (hid : p'.client.sessionId = pkt.hdr.sessionId)
      (hjoins : p.joins e = some pkt.hdr.sessionId) (hpushes : p.pushes e = [])
      (hsend : p'.client.sendWin = p.client.sendWin) (hrecv : p'.client.recvWin = p.client.recvWin)
      (hout : ∀ q ∈ out, q.hdr.sessionId = pkt.hdr.sessionId ∧
        q.hdr.packetType ≠ PktType.data.code ∧ AckOf p.client.recvWin q)
  | leave (hid : p'.client.sessionId = 0) (hpushes : p.pushes e = []) (sendWin : SendWindow)
      (hnext : sendWin.nextSeq = p.client.sendWin.nextSeq)
      (hacts : ∀ msgs got,
        Acts p.client.sessionId (ofSession p.client.sessionId mail) (p.client.party msgs got)
          { p.client.party msgs got with send := sendWin } out)
      (hsend : p'.client.sendWin = (sendWin.reset 1).2)
      (hrecv : p'.client.recvWin = (p.client.recvWin.reset 1).2)

section Effect

variable {mail : List Packet} {p p' : ClientProc} {e : ClientEvent} {out : List Packet}

/-- An event that leaves the session and the windows as they are, and sends headers at most. -/
theorem Effect.of_emits (hid : p'.client.sessionId = p.client.sessionId)
    (hsend : p'.client.sendWin = p.client.sendWin) (hrecv : p'.client.recvWin = p.client.recvWin)
    (hpushes : p.pushes e = [])
    (hout : ∀ q ∈ out, q.hdr.sessionId = p.client.sessionId ∧
      q.hdr.packetType ≠ PktType.data.code ∧ AckOf p.client.recvWin q) :
    Effect mail p e p' out := by
  refine .stay hid (fun msgs got => ⟨got, ?_⟩) fun _ => ⟨hpushes, hsend, hrecv⟩
  rw [hpushes, List.append_nil, Client.party_congr hsend hrecv]
  exact Acts.emits _ hout

/-- An event that only resets the connection. -/
theorem Effect.of_reset (hid : p'.client.sessionId = 0)
    (hsend : p'.client.sendWin = (p.client.sendWin.reset 1).2)
    (hrecv : p'.client.recvWin = (p.client.recvWin.reset 1).2) (hpushes : p.pushes e = []) :
    Effect mail p e p' [] :=
  .leave hid hpushes p.client.sendWin rfl (fun msgs got => Acts.refl (p.client.party msgs got))
    hsend hrecv

theorem effect_packet (hp : p.Ready) {srcAddr : NetAddr} {pkt : Packet} {nowNs : UInt64}
    {sent : Bool} {workerState : ConnState} (hpc : p.pc = .poll workerState)
    (hmail : srcAddr.equal p.client.config.serverAddr = true → pkt ∈ mail) :
    Effect mail p (.packet srcAddr pkt nowNs sent)
      { p with
        client := (p.client.onPacket workerState srcAddr pkt nowNs sent).1
        pc := .poll (p.client.onPacket workerState srcAddr pkt nowNs sent).2.1 }
      (p.client.onPacket workerState srcAddr pkt nowNs sent).2.2 := by
  have hcopy : Agrees workerState p.client.sessionId := hp.copy _ (by rw [hpc]; rfl)
  have hhandles := p.client.handles_onPacket workerState srcAddr pkt nowNs sent
  generalize p.client.onPacket workerState srcAddr pkt nowNs sent = r at hhandles ⊢
  obtain ⟨c, st, out⟩ := r
  cases hhandles with
  | ignored | closed => exact .of_emits rfl rfl rfl rfl (by simp)
  | joined haddr hstate htype hid =>
    refine .join pkt (hmail haddr) hid (hcopy.connecting hstate) rfl ?_ rfl rfl rfl ?_
    · rw [joins, if_pos ⟨by rw [hpc, hstate], haddr, htype, hid⟩]
    · intro q hq
      rw [List.mem_singleton.1 hq]
      exact ⟨rfl, code_ne_data .connectAck (by decide), Or.inl rfl⟩
  | reset haddr hstate htype hid =>
    rcases Client.triggerReconnect_windows { p.client with lastActivityNs := nowNs } nowNs with
      ⟨h1, h2, h3⟩ | ⟨h1, h2, h3⟩
    · exact .of_emits h1 h2 h3 rfl (by simp)
    · exact .of_reset h1 h2 h3 rfl
  | session haddr hstate hid =>
    have hfields :=
      Client.onSessionPacket_fields { p.client with lastActivityNs := nowNs } pkt nowNs sent
    refine .stay hfields.2 (fun msgs got => ?_) fun hzero => ?_
    · have hmem : pkt ∈ ofSession p.client.sessionId mail := mem_ofSession.2 ⟨hmail haddr, hid⟩
      have hpushes : p.pushes (.packet srcAddr pkt nowNs sent) = [] := rfl
      rw [hpushes, List.append_nil]
      exact Client.acts_onSessionPacket (c := { p.client with lastActivityNs := nowNs }) hmem nowNs
        sent msgs got
    · exact absurd hzero (hcopy.connected hstate)

theorem effect_timers (hp : p.Ready) (nowNs : UInt64) (sent : Bool) {workerState : ConnState}
    (hpc : p.pc = .timers workerState) :
    Effect mail p (.timers nowNs sent)
      { p with client := (p.client.timers workerState nowNs sent).1, pc := .head }
      (p.client.timers workerState nowNs sent).2 := by
  have hcopy : Agrees workerState p.client.sessionId := hp.copy _ (by rw [hpc]; rfl)
  have hacts := p.client.acts_beat (ofSession p.client.sessionId mail) workerState nowNs sent
  obtain ⟨-, hid, hrecv, hnext⟩ := p.client.beat_fields workerState nowNs sent
  have hpushes : p.pushes (.timers nowNs sent) = [] := rfl
  -- whatever the inactivity check does, short of a reconnect, leaves the windows alone
  have hstay : ∀ c : Client, c.sessionId = p.client.sessionId →
      c.sendWin = (p.client.beat workerState nowNs sent).sendWin →
      c.recvWin = (p.client.beat workerState nowNs sent).recvWin →
      Effect mail p (.timers nowNs sent) { p with client := c, pc := .head }
        (p.client.timers workerState nowNs sent).2 := by
    intro c h1 h2 h3
    refine .stay h1 (fun msgs got => ⟨got, ?_⟩) fun hzero => ?_
    · rw [hpushes, List.append_nil, Client.party_congr h2 h3]
      exact hacts msgs got
    · have hne : workerState ≠ .connected := fun hst => hcopy.connected hst hzero
      obtain ⟨h4, h5⟩ := Client.beat_of_ne hne p.client nowNs sent
      exact ⟨rfl, h2.trans h4, h3.trans h5⟩
  have hclient : (p.client.timers workerState nowNs sent).1 =
      (p.client.beat workerState nowNs sent).inactivityStep workerState nowNs := rfl
  rw [hclient]
  rcases (p.client.beat workerState nowNs sent).inactivityStep_cases workerState nowNs with
    h | h | ⟨hauto, h⟩ <;> rw [h]
  · exact hstay _ hid rfl rfl
  · exact hstay _ hid rfl rfl
  · rw [Client.triggerReconnect, if_neg (by rw [hauto]; decide)]
    refine .leave rfl hpushes (p.client.beat workerState nowNs sent).sendWin hnext
      (fun msgs got => ?_) rfl ?_
    · have hparty : (p.client.beat workerState nowNs sent).party msgs got =
          { p.client.party msgs got with
            send := (p.client.beat workerState nowNs sent).sendWin } := by
        rw [Client.party, hrecv]
        rfl
      rw [← hparty]
      exact hacts msgs got
    · show ((p.client.beat workerState nowNs sent).recvWin.reset 1).2 = _
      rw [hrecv]

/-- **Every event of the client stays in its session, joins one or leaves.** -/
theorem effect_of_moves (hp : p.Ready) (h : p.Moves e p' out)
    (hmail : ∀ srcAddr pkt nowNs sent, e = .packet srcAddr pkt nowNs sent →
      srcAddr.equal p.client.config.serverAddr = true → pkt ∈ mail)
    (hshort : p'.client.sendWin.nextSeq.toNat ≤ 2 ^ 30) : Effect mail p e p' out := by
  cases h with
  | send mode data len =>
    have hfields : (p.client.send mode data len).2.sessionId = p.client.sessionId ∧
        (p.client.send mode data len).2.sendWin = p.client.sendWin ∧
        (p.client.send mode data len).2.recvWin = p.client.recvWin := by
      unfold Client.send
      split_ifs
      · exact ⟨rfl, rfl, rfl⟩
      · exact ⟨rfl, rfl, rfl⟩
      · exact ⟨rfl, rfl, rfl⟩
      · split <;> exact ⟨rfl, rfl, rfl⟩
    exact .of_emits hfields.1 hfields.2.1 hfields.2.2 rfl (by simp)
  | recv | stop | endPoll | endDrain => exact .of_emits rfl rfl rfl rfl (by simp)
  | disconnectBegin =>
    unfold Client.disconnectBegin
    split_ifs
    · refine .of_emits rfl rfl rfl rfl fun q hq => ?_
      rw [List.mem_singleton.1 hq]
      exact ⟨rfl, code_ne_data .disconnect (by decide), Or.inr rfl⟩
    · exact .of_emits rfl rfl rfl rfl (by simp)
  | disconnectEnd =>
    unfold Client.disconnectEnd
    split_ifs
    · exact .of_reset rfl rfl rfl rfl
    · exact .of_emits rfl rfl rfl rfl (by simp)
  | connect nowNs ok =>
    unfold Client.connectBegin
    cases ok <;> exact .of_reset rfl rfl rfl rfl
  | turn nowNs sent =>
    unfold Client.handshake
    split_ifs
    · refine .of_emits rfl rfl rfl rfl fun q hq => ?_
      rw [List.mem_singleton.1 hq]
      exact ⟨rfl, code_ne_data .connectReq (by decide), Or.inl rfl⟩
    · exact .of_emits rfl rfl rfl rfl (by simp)
  | packet srcAddr pkt nowNs sent workerState hpc =>
    exact effect_packet hp hpc (hmail srcAddr pkt nowNs sent rfl)
  | drain nowNs sent workerState hpc =>
    have hcopy : Agrees workerState p.client.sessionId := hp.copy _ (by rw [hpc]; rfl)
    have hpushes : p.pushes (.drain nowNs sent) = p.client.pushes workerState nowNs := by
      simp only [pushes, hpc]
    refine .stay (p.client.drainStep_fields workerState nowNs sent).2 (fun msgs got => ⟨got, ?_⟩)
      fun hzero => ?_
    · rw [hpushes]
      exact Client.acts_drainStep hshort msgs got
    · have hne : ¬ (workerState = .connected ∧ p.client.sendWin.canSend = true) :=
        fun h => hcopy.connected h.1 hzero
      rw [hpushes, Client.pushes, if_neg hne, Client.drainStep, if_neg hne]
      exact ⟨rfl, rfl, rfl⟩
  | timers nowNs sent workerState hpc => exact effect_timers hp nowNs sent hpc

end Effect

end ClientProc

end Rel4u
