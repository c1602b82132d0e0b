import Rel4u.Channel.Link
import Rel4u.Client.Run
import Rel4u.Server.TableRun

/-!
# A client, the server and the network between them

A `System` is one client, the server, and every packet that either has sent to the other. An event
is an event of the client or of the server. A packet that arrives from the peer's address is any of
those sent, at any later time, any number of times or never: the network drops, duplicates and
reorders, and forges nothing. Other addresses are not restricted.

The server's ids are seeded by a clock and a stack address. That it never issues an id twice is an
assumption (`FreshId`), and so is that a session carries fewer than `2 ^ 30` reliable messages in
either direction (`Short`): other events do not happen in a run.

Beside the endpoints' own state a system records
* `issued`: the session ids given out so far, with their addresses;
* `used`: the ids under which the client has sent or accepted a reliable message;
* `spoiled`: the ids whose windows have not started together: the client came back to a used
  one, or a window could not be allocated;
* `sent`: the reliable messages that have entered the client's send window since it was reset;
* `handed`: the slots that the server's receive queue has taken, with the session they came by;
* `ends`: the server's windows of each session of the client's, as they were last.
-/

namespace Rel4u

/-- One client, at address `addr`, the server and the network. -/
structure System where
  addr : NetAddr
  client : ClientProc
  server : Server
  toServer : List Packet
  toClient : List Packet
  issued : List (UInt32 × NetAddr)
  used : List UInt32
  spoiled : List UInt32
  sent : List Message
  handed : List (UInt32 × RecvSlot)
  ends : UInt32 → SendWindow × RecvWindow

/-- What can happen. -/
inductive SystemEvent
  | client (e : ClientEvent)
  | server (e : ServerEvent)

/-! ### What is recorded -/

/-- The reliable message that a turn of the client's drain loop pushes into the window. -/
def Client.pushes (c : Client) (workerState : ConnState) (nowNs : UInt64) : List Message :=
  if workerState = .connected ∧ c.sendWin.canSend = true then
    match c.sendQueue.tryPop.1 with
    | none => []
    | some item =>
      match c.sendWin.push item.mode item.data item.len.toNat nowNs with
      | .ok _ =>
        if Reliable item.mode then [Message.ofPush item.mode item.data item.len.toNat] else []
      | .error _ => []
  else []

/-- The reliable message that an event of the client pushes into the window. -/
def ClientProc.pushes (p : ClientProc) : ClientEvent → List Message
  | .drain nowNs _ =>
    match p.pc with
    | .drain workerState => p.client.pushes workerState nowNs
    | _ => []
  | _ => []

/-- The session that an event makes the client join. -/
def ClientProc.joins (p : ClientProc) : ClientEvent → Option UInt32
  | .packet srcAddr pkt _ _ =>
    if p.pc = .poll .connecting ∧ srcAddr.equal p.client.config.serverAddr = true ∧
        pkt.hdr.packetType = PktType.connectResp.code ∧ pkt.hdr.sessionId ≠ 0 then
      some pkt.hdr.sessionId
    else none
  | _ => none

namespace Server

/-- The session id that an event issues, and the address it is issued to. -/
def issues (s : Server) : ServerEvent → Option (UInt32 × NetAddr)
  | .packet srcAddr pkt nowNs stackAddr callocSend callocRecv _ =>
    if s.running = true ∧ pkt.hdr.packetType = PktType.connectReq.code ∧
        s.table.findByAddr srcAddr = none ∧
        (s.table.allocate srcAddr (newSessionId nowNs stackAddr) callocSend
          callocRecv).1.isSome = true then
      some (newSessionId nowNs stackAddr, srcAddr)
    else none
  | _ => none

/-- The slots of a batch that the receive queue takes. -/
def taken (clientId : UInt32) : MpmcQueue → List RecvSlot → List RecvSlot
  | _, [] => []
  | queue, slot :: rest =>
    match queue.pushNotify (itemOfReady clientId slot) with
    | (true, queue) => slot :: taken clientId queue rest
    | (false, queue) => taken clientId queue rest

/-- The slots that the receive queue takes in an event, with the session they came by. -/
def hands (s : Server) : ServerEvent → List (UInt32 × RecvSlot)
  | .packet srcAddr pkt nowNs _ _ _ sent =>
    match s.table.findByAddr srcAddr with
    | none => []
    | some i =>
      if s.running = true ∧ (s.table.slot i).sessionId = pkt.hdr.sessionId then
        let (session, ready, _) := processPacket (touched (s.table.slot i) nowNs) pkt nowNs sent
        (taken session.clientId s.recvQueue ready).map fun slot => (pkt.hdr.sessionId, slot)
      else []
  | _ => []

/-- The session of the table with this address and this id. -/
def sessionOf (s : Server) (addr : NetAddr) (id : UInt32) : Option Session :=
  s.table.sessions.find? fun x =>
    x.active && decide (x.addr = addr) && decide (x.sessionId = id)

end Server

/-- The allocations of an event succeed. -/
def ServerEvent.callocs : ServerEvent → Bool
  | .packet _ _ _ _ callocSend callocRecv _ => callocSend && callocRecv
  | _ => true

namespace System

/-- The windows a session is created with when its slot lies outside the table. -/
def strayEnds : SendWindow × RecvWindow := (SendWindow.fresh 64 1, RecvWindow.fresh 64 1)

/-- A client and a server that have been created, before anything happens. -/
def start (addr : NetAddr) (c : Client) (s : Server) : System :=
  { addr, client := .start c, server := s, toServer := [], toClient := [], issued := [], used := []
    spoiled := [], sent := [], handed := [], ends := fun _ => strayEnds }

/-- A packet that arrives from the peer has been sent by the peer. -/
def Delivers (σ : System) : SystemEvent → Prop
  | .client (.packet srcAddr pkt _ _) =>
    srcAddr.equal σ.client.client.config.serverAddr = true → pkt ∈ σ.toClient
  | .server (.packet srcAddr pkt _ _ _ _ _) => srcAddr = σ.addr → pkt ∈ σ.toServer
  | _ => True

instance (σ : System) : (e : SystemEvent) → Decidable (σ.Delivers e)
  | .client e => by
    cases e
    case packet => exact inferInstanceAs (Decidable (_ → _))
    all_goals exact instDecidableTrue
  | .server e => by
    cases e
    case packet => exact inferInstanceAs (Decidable (_ → _))
    all_goals exact instDecidableTrue

/-- No session id is issued twice. -/
def FreshId (σ : System) : SystemEvent → Prop
  | .client _ => True
  | .server e => ∀ x ∈ σ.server.issues e, x.1 ∉ σ.issued.map Prod.fst

instance (σ : System) : (e : SystemEvent) → Decidable (σ.FreshId e)
  | .client _ => instDecidableTrue
  | .server e => inferInstanceAs (Decidable (∀ x ∈ σ.server.issues e, _))

/-- Fewer than `2 ^ 30` reliable messages have been sent in any session: the numbers start at 1. -/
def Short (σ : System) : Prop :=
  σ.client.client.sendWin.nextSeq.toNat ≤ 2 ^ 30 ∧
    ∀ x ∈ σ.server.table.sessions, x.sendWin.nextSeq.toNat ≤ 2 ^ 30

instance (σ : System) : Decidable σ.Short := inferInstanceAs (Decidable (_ ∧ _))

/-- The system after an event of the client that ends in `client` and sends `out`. -/
def afterClient (σ : System) (e : ClientEvent) (client : ClientProc) (out : List Packet) :
    System :=
  let id := client.client.sessionId
  let changed := decide (id ≠ σ.client.client.sessionId)
  { σ with
    client
    toServer := σ.toServer ++ out
    sent := if changed then [] else σ.sent ++ σ.client.pushes e
    used :=
      if id ≠ 0 ∧ ¬ Untouched client.client.sendWin client.client.recvWin then id :: σ.used
      else σ.used
    spoiled := if changed && decide (id ∈ σ.used) then id :: σ.spoiled else σ.spoiled }

/-- The system after an event of the server that ends in `server` and sends `out`. -/
def afterServer (σ : System) (e : ServerEvent) (server : Server)
    (out : List (NetAddr × Packet)) : System :=
  { σ with
    server
    toClient := σ.toClient ++ (out.filter fun x => x.1 = σ.addr).map Prod.snd
    issued := σ.issued ++ (σ.server.issues e).toList
    spoiled :=
      if e.callocs then σ.spoiled
      else ((σ.server.issues e).toList.map Prod.fst) ++ σ.spoiled
    handed := σ.handed ++ σ.server.hands e
    ends := fun id =>
      match server.sessionOf σ.addr id with
      | some x => (x.sendWin, x.recvWin)
      | none => σ.ends id }

/-- The system after an event, or `none` if the event is not enabled. -/
def next (σ : System) : SystemEvent → Option System
  | .client e =>
    match σ.client.exec e with
    | some (client, out) => some (σ.afterClient e client out)
    | none => none
  | .server e => some (σ.afterServer e (σ.server.exec e).1 (σ.server.exec e).2)

/-- One event, under the assumptions. -/
def exec (σ : System) (e : SystemEvent) : Option System :=
  if σ.Delivers e ∧ σ.FreshId e then (σ.next e).filter fun σ' => decide σ'.Short else none

/-- A sequence of events. -/
def run (σ : System) : List SystemEvent → Option System
  | [] => some σ
  | e :: es => (σ.exec e).bind fun σ' => σ'.run es

/-- The four counters of a client and a session are in order: in either direction the sender's head
is not beyond what the receiver expects, and that is not beyond what the sender sends next. -/
def InOrder (c : Client) (x : Session) : Prop :=
  seqLte c.sendWin.headSeq x.recvWin.expectedSeq = true ∧
    seqLte x.recvWin.expectedSeq c.sendWin.nextSeq = true ∧
    seqLte x.sendWin.headSeq c.recvWin.expectedSeq = true ∧
    seqLte c.recvWin.expectedSeq x.sendWin.nextSeq = true

instance (c : Client) (x : Session) : Decidable (InOrder c x) :=
  inferInstanceAs (Decidable (_ ∧ _ ∧ _ ∧ _))

/-! ### Steps -/

section Steps

variable {σ σ' : System}

/-- What an event does, guards included. -/
theorem exec_cases {e : SystemEvent} (h : σ.exec e = some σ') :
    σ.Delivers e ∧ σ.FreshId e ∧ σ'.Short ∧
      ((∃ ce client out, e = .client ce ∧ σ.client.exec ce = some (client, out) ∧
          σ' = σ.afterClient ce client out) ∨
        ∃ se, e = .server se ∧
          σ' = σ.afterServer se (σ.server.exec se).1 (σ.server.exec se).2) := by
  unfold exec at h
  split_ifs at h with hguard
  rw [Option.filter_eq_some_iff, decide_eq_true_eq] at h
  refine ⟨hguard.1, hguard.2, h.2, ?_⟩
  cases e with
  | client e =>
    have hnext := h.1
    simp only [next] at hnext
    split at hnext
    · next client out hexec =>
      exact Or.inl ⟨e, client, out, rfl, hexec, (Option.some.inj hnext).symm⟩
    · exact absurd hnext (by simp)
  | server e => exact Or.inr ⟨e, rfl, (Option.some.inj h.1).symm⟩

/-- **An invariant of every step is an invariant of every run.** -/
theorem run_induction {P : System → Prop}
    (hstep : ∀ {σ e σ'}, P σ → σ.exec e = some σ' → P σ') :
    ∀ {es : List SystemEvent} {σ σ' : System}, P σ → σ.run es = some σ' → P σ' := by
  intro es
  induction es with
  | nil =>
    intro σ σ' hσ hrun
    rw [run, Option.some.injEq] at hrun
    exact hrun ▸ hσ
  | cons e es ih =>
    intro σ σ' hσ hrun
    obtain ⟨τ, hτ, hrun⟩ := Option.bind_eq_some_iff.1 hrun
    exact ih (hstep hσ hτ) hrun

end Steps

end System

end Rel4u
