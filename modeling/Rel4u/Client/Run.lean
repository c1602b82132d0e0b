import Rel4u.Client.Model
import Rel4u.Worker.SharedInv

/-!
# Runs of the client

The application's calls and the parts of the worker's turn interleave. `ClientProc` is a client
with the point its worker has reached, and `ClientProc.exec` performs one event: an application
call, or the next part of the turn. A part that the worker has not reached is not enabled.

A turn loads `state` once, at its head, into the local `workerState`; the receive loop may change
the local, and the timers at the end of the turn read it a last time.

`rel4u_client_connect` is `disconnectBegin`, the end of the worker, `disconnectEnd` and `connect`.
A datagram is given as the packet it decodes to; one that does not decode changes nothing. A worker
that leaves the receive loop on a REJECT or a DISCONNECT may here read on until it leaves the loop.
-/

namespace Rel4u

/-- Where the worker is: not running, at the head of a turn, in the receive loop, in the drain loop
or before the timers, with its local copy of the state. -/
inductive WorkerPc
  | stopped
  | head
  | poll (workerState : ConnState)
  | drain (workerState : ConnState)
  | timers (workerState : ConnState)
  deriving DecidableEq, Repr

/-- The client, its worker, and the worker's `last_connect_req_ns`. -/
structure ClientProc where
  client : Client
  pc : WorkerPc
  lastConnectReqNs : UInt64

/-- What can happen at the client. -/
inductive ClientEvent
  | send (mode : UInt8) (data : List UInt8) (len : ℕ)
  | recv
  | disconnectBegin
  | disconnectEnd
  | connect (nowNs : UInt64) (ok : Bool)
  | turn (nowNs : UInt64) (sent : Bool)
  | packet (srcAddr : NetAddr) (pkt : Packet) (nowNs : UInt64) (sent : Bool)
  | endPoll
  | drain (nowNs : UInt64) (sent : Bool)
  | endDrain
  | timers (nowNs : UInt64) (sent : Bool)

namespace Client

/-- What a successful `create` returns. -/
theorem create_some {config : ClientConfig} {a : CreateAllocs} {c : Client}
    (h : create config a = some c) :
    ∃ sendQueue recvQueue,
      MpmcQueue.init config.withDefaults.memoryMode config.withDefaults.queueFullPolicy
        config.withDefaults.sendQueueCapacity.toNat config.withDefaults.maxSendMemoryBytes
        a.sendRing a.sendMalloc = some sendQueue ∧
      ((default : SendWindow).init config.withDefaults.windowSize 1 (a.sendWindow 0)).1 = 0 ∧
      ((default : RecvWindow).init config.withDefaults.windowSize 1 (a.recvWindow 0)).1 = 0 ∧
      c = { config := config.withDefaults, workerStarted := false, running := false
            state := .disconnected, sessionId := 0, rejected := false, sendQueue, recvQueue
            sendWin :=
              ((default : SendWindow).init config.withDefaults.windowSize 1 (a.sendWindow 0)).2
            recvWin :=
              ((default : RecvWindow).init config.withDefaults.windowSize 1 (a.recvWindow 0)).2
            rtt := Rtt.default, lastActivityNs := 0, lastHeartbeatSentNs := 0
            ackPending := false } := by
  unfold create at h
  dsimp only at h
  split at h
  · exact absurd h (by simp)
  next sendQueue hsend =>
    split at h
    · exact absurd h (by simp)
    next recvQueue hrecv =>
      split_ifs at h with hs hr
      exact ⟨sendQueue, recvQueue, hsend, not_not.1 hs, not_not.1 hr, (Option.some.inj h).symm⟩

/-- A packet from an address. -/
def onPacket (c : Client) (workerState : ConnState) (srcAddr : NetAddr) (pkt : Packet)
    (nowNs : UInt64) (sent : Bool) : Client × ConnState × List Packet :=
  if !srcAddr.equal c.config.serverAddr then (c, workerState, [])
  else c.handle workerState pkt nowNs sent

section Datagram

variable {host : Endian} {datagram : List UInt8}

/-- A datagram that does not decode changes nothing. -/
theorem onDatagram_of_error {e : ℤ} (hdec : decodeHeader host (datagram.take inBufSize) = .error e)
    (c : Client) (workerState : ConnState) (srcAddr : NetAddr) (nowNs : UInt64) (sent : Bool) :
    c.onDatagram host workerState srcAddr datagram nowNs sent = (c, workerState, []) := by
  simp only [onDatagram, hdec, ite_self]

/-- Any other is handled as the packet it decodes to. -/
theorem onDatagram_of_ok {hdr : Header}
    (hdec : decodeHeader host (datagram.take inBufSize) = .ok hdr) (c : Client)
    (workerState : ConnState) (srcAddr : NetAddr) (nowNs : UInt64) (sent : Bool) :
    c.onDatagram host workerState srcAddr datagram nowNs sent =
      c.onPacket workerState srcAddr ⟨hdr, (datagram.take inBufSize).drop headerLen⟩ nowNs
        sent := by
  simp only [onDatagram, onPacket, hdec]

end Datagram

/-- The timers at the end of a turn. -/
def timers (c : Client) (workerState : ConnState) (nowNs : UInt64) (sent : Bool) :
    Client × List Packet :=
  let (c, out₁) := c.retransmitStep workerState nowNs sent
  let (c, out₂) := c.ackStep workerState sent
  let (c, out₃) := c.heartbeatStep workerState nowNs sent
  (c.inactivityStep workerState nowNs, out₁ ++ out₂ ++ out₃)

end Client

namespace ClientProc

/-- One event: the client after it and the packets it sends, or `none` if it is not enabled. -/
def exec (p : ClientProc) : ClientEvent → Option (ClientProc × List Packet)
  | .send mode data len => some ({ p with client := (p.client.send mode data len).2 }, [])
  | .recv => some ({ p with client := p.client.recv.2 }, [])
  | .disconnectBegin =>
    some ({ p with client := p.client.disconnectBegin.1 }, p.client.disconnectBegin.2)
  | .disconnectEnd =>
    match p.pc with
    | .stopped => some ({ p with client := p.client.disconnectEnd }, [])
    | _ => none
  | .connect nowNs ok =>
    match p.pc with
    | .stopped =>
      if !p.client.workerStarted && decide (p.client.state = .disconnected) then
        some ({ client := p.client.connectBegin nowNs ok
                pc := if ok then .head else .stopped
                lastConnectReqNs := 0 }, [])
      else none
    | _ => none
  | .turn nowNs sent =>
    match p.pc with
    | .head =>
      if p.client.running then
        let (client, out, last) :=
          p.client.handshake p.client.state p.lastConnectReqNs nowNs sent
        some ({ client, pc := .poll p.client.state, lastConnectReqNs := last }, out)
      else some ({ p with pc := .stopped }, [])
    | _ => none
  | .packet srcAddr pkt nowNs sent =>
    match p.pc with
    | .poll workerState =>
      let (client, workerState, out) := p.client.onPacket workerState srcAddr pkt nowNs sent
      some ({ p with client, pc := .poll workerState }, out)
    | _ => none
  | .endPoll =>
    match p.pc with
    | .poll workerState => some ({ p with pc := .drain workerState }, [])
    | _ => none
  | .drain nowNs sent =>
    match p.pc with
    | .drain workerState =>
      let (_, client, out) := p.client.drainStep workerState nowNs sent
      some ({ p with client }, out)
    | _ => none
  | .endDrain =>
    match p.pc with
    | .drain workerState => some ({ p with pc := .timers workerState }, [])
    | _ => none
  | .timers nowNs sent =>
    match p.pc with
    | .timers workerState =>
      let (client, out) := p.client.timers workerState nowNs sent
      some ({ p with client, pc := .head }, out)
    | _ => none

/-- The enabled events, one constructor each: `exec` as a relation. -/
inductive Moves (p : ClientProc) : ClientEvent → ClientProc → List Packet → Prop
  | send (mode : UInt8) (data : List UInt8) (len : ℕ) :
      Moves p (.send mode data len) { p with client := (p.client.send mode data len).2 } []
  | recv : Moves p .recv { p with client := p.client.recv.2 } []
  | disconnectBegin :
      Moves p .disconnectBegin { p with client := p.client.disconnectBegin.1 }
        p.client.disconnectBegin.2
  | disconnectEnd (hpc : p.pc = .stopped) :
      Moves p .disconnectEnd { p with client := p.client.disconnectEnd } []
  | connect (nowNs : UInt64) (ok : Bool) (hpc : p.pc = .stopped)
      (hstarted : p.client.workerStarted = false) (hstate : p.client.state = .disconnected) :
      Moves p (.connect nowNs ok)
        { client := p.client.connectBegin nowNs ok
          pc := if ok then .head else .stopped
          lastConnectReqNs := 0 } []
  | turn (nowNs : UInt64) (sent : Bool) (hpc : p.pc = .head) (hrun : p.client.running = true) :
      Moves p (.turn nowNs sent)
        { client := (p.client.handshake p.client.state p.lastConnectReqNs nowNs sent).1
          pc := .poll p.client.state
          lastConnectReqNs :=
            (p.client.handshake p.client.state p.lastConnectReqNs nowNs sent).2.2 }
        (p.client.handshake p.client.state p.lastConnectReqNs nowNs sent).2.1
  | stop (nowNs : UInt64) (sent : Bool) (hpc : p.pc = .head) (hrun : p.client.running = false) :
      Moves p (.turn nowNs sent) { p with pc := .stopped } []
  | packet (srcAddr : NetAddr) (pkt : Packet) (nowNs : UInt64) (sent : Bool)
      (workerState : ConnState) (hpc : p.pc = .poll workerState) :
      Moves p (.packet srcAddr pkt nowNs sent)
        { p with
          client := (p.client.onPacket workerState srcAddr pkt nowNs sent).1
          pc := .poll (p.client.onPacket workerState srcAddr pkt nowNs sent).2.1 }
        (p.client.onPacket workerState srcAddr pkt nowNs sent).2.2
  | endPoll (workerState : ConnState) (hpc : p.pc = .poll workerState) :
      Moves p .endPoll { p with pc := .drain workerState } []
  | drain (nowNs : UInt64) (sent : Bool) (workerState : ConnState)
      (hpc : p.pc = .drain workerState) :
      Moves p (.drain nowNs sent)
        { p with client := (p.client.drainStep workerState nowNs sent).2.1 }
        (p.client.drainStep workerState nowNs sent).2.2
  | endDrain (workerState : ConnState) (hpc : p.pc = .drain workerState) :
      Moves p .endDrain { p with pc := .timers workerState } []
  | timers (nowNs : UInt64) (sent : Bool) (workerState : ConnState)
      (hpc : p.pc = .timers workerState) :
      Moves p (.timers nowNs sent)
        { p with client := (p.client.timers workerState nowNs sent).1, pc := .head }
        (p.client.timers workerState nowNs sent).2

/-- What an event does, guards included. -/
theorem moves_of_exec {p p' : ClientProc} {e : ClientEvent} {out : List Packet}
    (h : p.exec e = some (p', out)) : p.Moves e p' out := by
  cases e <;> simp only [exec] at h
  case send | recv | disconnectBegin =>
    obtain ⟨rfl, rfl⟩ := Prod.mk.inj (Option.some.inj h)
    constructor
  case turn nowNs sent =>
    split at h
    · next hpc =>
      split_ifs at h with hrun
      · obtain ⟨rfl, rfl⟩ := Prod.mk.inj (Option.some.inj h)
        exact .turn nowNs sent hpc hrun
      · obtain ⟨rfl, rfl⟩ := Prod.mk.inj (Option.some.inj h)
        exact .stop nowNs sent hpc (by simpa using hrun)
    · exact absurd h (by simp)
  case connect nowNs ok =>
    split at h
    · next hpc =>
      by_cases hguard : (!p.client.workerStarted && decide (p.client.state = .disconnected)) = true
      · rw [if_pos hguard] at h
        simp only [Bool.and_eq_true, Bool.not_eq_true', decide_eq_true_eq] at hguard
        obtain ⟨rfl, rfl⟩ := Prod.mk.inj (Option.some.inj h)
        exact .connect nowNs ok hpc hguard.1 hguard.2
      · rw [if_neg hguard] at h
        exact absurd h (by simp)
    · exact absurd h (by simp)
  all_goals
    split at h
    · next hpc =>
      obtain ⟨rfl, rfl⟩ := Prod.mk.inj (Option.some.inj h)
      constructor
      exact hpc
    · exact absurd h (by simp)

/-- A created client, before its first call. -/
def start (c : Client) : ClientProc := { client := c, pc := .stopped, lastConnectReqNs := 0 }

/-- A sequence of events; `none` if one of them is not enabled. -/
def run (p : ClientProc) : List ClientEvent → Option ClientProc
  | [] => some p
  | e :: es => (p.exec e).bind fun r => r.1.run es

/-- The states of the runs of a client that `rel4u_client_create` returns. -/
def Reachable (config : ClientConfig) (a : CreateAllocs) (p : ClientProc) : Prop :=
  ∃ c es, Client.create config a = some c ∧ (start c).run es = some p

/-- **What the events of a run keep, the run keeps.** -/
theorem run_induction_mem {P : ClientProc → Prop} {es : List ClientEvent}
    (hstep : ∀ e ∈ es, ∀ {p p' out}, P p → Moves p e p' out → P p') {p p' : ClientProc}
    (hp : P p) (hrun : p.run es = some p') : P p' := by
  induction es generalizing p with
  | nil =>
    rw [run, Option.some.injEq] at hrun
    exact hrun ▸ hp
  | cons e es ih =>
    rw [run] at hrun
    cases he : p.exec e with
    | none => rw [he] at hrun; exact absurd hrun (by simp)
    | some r =>
      rw [he] at hrun
      exact ih (fun e' he' => hstep e' (List.mem_cons_of_mem e he'))
        (hstep e List.mem_cons_self hp (moves_of_exec he)) hrun

/-- **An invariant of every event is an invariant of every run.** -/
theorem run_induction {P : ClientProc → Prop}
    (hstep : ∀ {p e p' out}, P p → Moves p e p' out → P p') {es : List ClientEvent}
    {p p' : ClientProc} (hp : P p) (hrun : p.run es = some p') : P p' :=
  run_induction_mem (fun _ _ => hstep) hp hrun

end ClientProc

end Rel4u
