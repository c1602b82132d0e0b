import Rel4u.Server.Slot
import Rel4u.Worker.Drain

/-!
# A turn of the server's worker

`server_worker_thread_func` repeats one turn: it reads the socket until there is nothing left,
drains the send queue until it is empty or an item has to wait, and then runs the timers of every
session under one lock. `turn` is that, loop by loop. Application calls come in between, wherever
the worker does not hold the lock: `AppCall`.

A turn is a run of the server (`turn_performs`), so what holds of every run holds of every sequence
of turns. What a turn adds is that its loops come to an end, and what is true when they have: the
drain loop does, as long as the application does not keep sending, and leaves no message behind
unless the window it is for is full (`drain_ends`).
-/

namespace Rel4u

/-- An application call that comes between two critical sections of the worker. -/
inductive AppCall
  | send (clientId : UInt32) (mode : UInt8) (data : List UInt8) (len : ℕ)
  | recv
  | disconnectClient (clientId : UInt32)

namespace AppCall

/-- The call as an event. -/
def event : AppCall → ServerEvent
  | .send clientId mode data len => .send clientId mode data len
  | .recv => .recv
  | .disconnectClient clientId => .disconnectClient clientId

/-- The call is `rel4u_server_send`. -/
def isSend : AppCall → Bool
  | .send .. => true
  | _ => false

end AppCall

/-- A datagram that `rel4u_net_recvfrom` returns, and what the code reads while it handles it. -/
structure Datagram where
  srcAddr : NetAddr
  bytes : List UInt8
  nowNs : UInt64
  stackAddr : UInt64
  callocSend : Bool
  callocRecv : Bool
  sent : Bool

/-- The datagram as an event, if it decodes. -/
def Datagram.event (host : Endian) (d : Datagram) : Option ServerEvent :=
  match decodeHeader host (d.bytes.take inBufSize) with
  | .error _ => none
  | .ok hdr =>
    some (.packet d.srcAddr ⟨hdr, (d.bytes.take inBufSize).drop headerLen⟩ d.nowNs d.stackAddr
      d.callocSend d.callocRecv d.sent)

/-- Whether the packets of a session's timers could be sent. -/
structure TimerSends where
  retransmit : Bool
  ack : Bool
  heartbeat : Bool

/-- What a turn meets: the datagrams, the turns of the drain loop, each after some application
calls, and the timers' clock and sends. -/
structure WorkerTurn where
  datagrams : List (List AppCall × Datagram)
  drains : List (List AppCall × UInt64 × Bool)
  calls : List AppCall
  timersNs : UInt64
  sends : ℕ → TimerSends

/-- The packets of a turn: its datagrams that decode, in order. -/
def WorkerTurn.packets (host : Endian) (t : WorkerTurn) : List ServerEvent :=
  t.datagrams.filterMap fun x => x.2.event host

namespace Server

/-! ### The turn -/

/-- A sequence of events: the server after it, and what it sends. -/
def perform (s : Server) : List ServerEvent → Server × List (NetAddr × Packet)
  | [] => (s, [])
  | e :: es =>
    let (s, out) := s.exec e
    let (s, rest) := s.perform es
    (s, out ++ rest)

/-- Application calls. -/
def callAll (s : Server) (calls : List AppCall) : Server × List (NetAddr × Packet) :=
  s.perform (calls.map AppCall.event)

/-- `while ((bytes_read = rel4u_net_recvfrom(..)) > 0)`. -/
def receiveLoop (host : Endian) (s : Server) :
    List (List AppCall × Datagram) → Server × List (NetAddr × Packet)
  | [] => (s, [])
  | (calls, d) :: rest =>
    let (s, out) := s.callAll calls
    let (s, out') := onDatagram host s d.srcAddr d.bytes d.nowNs d.stackAddr d.callocSend
      d.callocRecv d.sent
    let (s, out'') := receiveLoop host s rest
    (s, out ++ out' ++ out'')

/-- The drain loop, `while (true)`; `none` if it is not over after the given turns. -/
def drainLoop (s : Server) :
    List (List AppCall × UInt64 × Bool) → Option (Server × List (NetAddr × Packet))
  | [] => none
  | (calls, nowNs, sent) :: rest =>
    let (s, out) := s.callAll calls
    match s.drainStep nowNs sent with
    | (false, s, out') => some (s, out ++ out')
    | (true, s, out') => (s.drainLoop rest).map fun r => (r.1, out ++ out' ++ r.2)

/-- `session` is `s->session_table.sessions[i]`, written back. -/
def setSession (s : Server) (i : ℕ) (session : Session) : Server :=
  { s with table := s.table.setSlot i session }

/-- The standalone ACK of a session. -/
def ackTimer (session : Session) (sent : Bool) : Session × List (NetAddr × Packet) :=
  if session.ackPending then
    ((sendPacket session sent .ack 0 0 [] 0).1, [(sendPacket session sent .ack 0 0 [] 0).2])
  else (session, [])

/-- The heartbeat of a session. -/
def heartbeatTimer (config : ServerConfig) (session : Session) (nowNs : UInt64) (sent : Bool) :
    Session × List (NetAddr × Packet) :=
  if nowNs - session.lastHeartbeatSentNs ≥ msToNs config.heartbeatIntervalMs then
    (afterHeartbeat session nowNs sent, [(sendPacket session sent .heartbeat 0 0 [] 0).2])
  else (session, [])

/-- The body of the timers' loop. -/
def timerSlot (s : Server) (i : ℕ) (nowNs : UInt64) (sends : TimerSends) :
    Server × List (NetAddr × Packet) :=
  let session := s.table.slot i
  if session.state = .disconnected then (s, [])
  else if nowNs - session.lastActivityNs ≥ msToNs s.config.inactivityTimeoutMs then
    ({ s with table := s.table.free i }, [])
  else if session.state ≠ .connected then (s, [])
  else
    let resent := afterRetransmit session nowNs sends.retransmit
    let acked := ackTimer resent.1 sends.ack
    let beat := heartbeatTimer s.config acked.1 nowNs sends.heartbeat
    (s.setSession i beat.1, resent.2 ++ (acked.2 ++ beat.2))

/-- The timers of the given slots. -/
def timerLoop (nowNs : UInt64) (sends : ℕ → TimerSends) (s : Server) :
    List ℕ → Server × List (NetAddr × Packet)
  | [] => (s, [])
  | i :: rest =>
    let (s, out) := s.timerSlot i nowNs (sends i)
    let (s, out') := timerLoop nowNs sends s rest
    (s, out ++ out')

/-- One turn of the worker. -/
def turn (host : Endian) (s : Server) (t : WorkerTurn) :
    Option (Server × List (NetAddr × Packet)) :=
  let (s, out) := receiveLoop host s t.datagrams
  match s.drainLoop t.drains with
  | none => none
  | some (s, out') =>
    let (s, out'') := s.callAll t.calls
    let (s, out''') := timerLoop t.timersNs t.sends s (List.range s.table.maxClients.toNat)
    some (s, out ++ out' ++ out'' ++ out''')

/-! ### A turn is a run -/

theorem perform_append (s : Server) (es es' : List ServerEvent) :
    s.perform (es ++ es') = (((s.perform es).1.perform es').1,
      (s.perform es).2 ++ ((s.perform es).1.perform es').2) := by
  induction es generalizing s with
  | nil => rfl
  | cons e es ih =>
    simp only [List.cons_append, perform, ih, List.append_assoc]

theorem perform_fst (s : Server) (es : List ServerEvent) : (s.perform es).1 = s.run es := by
  induction es generalizing s with
  | nil => rfl
  | cons e es ih => exact ih (s.exec e).1

/-- `r` is what a run of events that satisfy `P` comes to, with the packets `ps` among them. -/
def Performs (P : ServerEvent → Prop) (s : Server) (ps : List ServerEvent)
    (r : Server × List (NetAddr × Packet)) : Prop :=
  ∃ es, (∀ e ∈ es, P e) ∧ es.filter isPacket = ps ∧ s.perform es = r

section Performs

variable {P : ServerEvent → Prop} {s : Server} {ps ps' : List ServerEvent}
  {r r' : Server × List (NetAddr × Packet)}

theorem Performs.refl (s : Server) : Performs P s [] (s, []) :=
  ⟨[], List.forall_mem_nil _, rfl, rfl⟩

theorem Performs.one {e : ServerEvent} (he : P e) (hps : [e].filter isPacket = ps) :
    Performs P s ps (s.exec e) := by
  refine ⟨[e], List.forall_mem_singleton.2 he, hps, ?_⟩
  simp only [perform, List.append_nil]

theorem Performs.trans (h : Performs P s ps r) (h' : Performs P r.1 ps' r') :
    Performs P s (ps ++ ps') (r'.1, r.2 ++ r'.2) := by
  obtain ⟨es, hes, rfl, rfl⟩ := h
  obtain ⟨es', hes', rfl, rfl⟩ := h'
  exact ⟨es ++ es', List.forall_mem_append.2 ⟨hes, hes'⟩, List.filter_append es es',
    s.perform_append es es'⟩

/-- `trans` on pairs: the components stay as they are written. -/
theorem Performs.trans_mk {s' s'' : Server} {out out' : List (NetAddr × Packet)}
    (h : Performs P s ps (s', out)) (h' : Performs P s' ps' (s'', out')) :
    Performs P s (ps ++ ps') (s'', out ++ out') := h.trans h'

end Performs

/-- The events of a turn. -/
inductive TurnEvent (host : Endian) (t : WorkerTurn) : ServerEvent → Prop
  | call (c : AppCall) : TurnEvent host t c.event
  | packet (e : ServerEvent) (he : e ∈ t.packets host) : TurnEvent host t e
  | drain (calls : List AppCall) (nowNs : UInt64) (sent : Bool)
      (hd : (calls, nowNs, sent) ∈ t.drains) : TurnEvent host t (.drain nowNs sent)
  | expire (i : ℕ) : TurnEvent host t (.expire i t.timersNs)
  | retransmit (i : ℕ) : TurnEvent host t (.retransmit i t.timersNs (t.sends i).retransmit)
  | ack (i : ℕ) : TurnEvent host t (.ack i (t.sends i).ack)
  | heartbeat (i : ℕ) : TurnEvent host t (.heartbeat i t.timersNs (t.sends i).heartbeat)

/-- A packet of a turn is one of its datagrams, read at the datagram's time. -/
theorem mem_packets {host : Endian} {t : WorkerTurn} {e : ServerEvent} (he : e ∈ t.packets host) :
    ∃ calls d, (calls, d) ∈ t.datagrams ∧ ∃ pkt, e = .packet d.srcAddr pkt d.nowNs d.stackAddr
      d.callocSend d.callocRecv d.sent := by
  obtain ⟨⟨calls, d⟩, hd, hevent⟩ := List.mem_filterMap.1 he
  refine ⟨calls, d, hd, ?_⟩
  unfold Datagram.event at hevent
  split at hevent
  · exact absurd hevent (by simp)
  · exact ⟨_, (Option.some.inj hevent).symm⟩

/-- Only `rel4u_server_stop` ends the worker. -/
theorem Moves.running {s s' : Server} {e : ServerEvent} {out : List (NetAddr × Packet)}
    (h : Moves s e s' out) (he : e ≠ .stop) (hrun : s.running = true) : s'.running = true := by
  have htake : s.takeItem.2.running = true := by
    unfold takeItem
    split
    · exact hrun
    · exact hrun
  cases h with
  | stop => exact absurd rfl he
  | start => rfl
  | drainNone | drainDiscard | drainHold | drainPush => exact htake
  | idle | send | recv | kick | accept | reject | enroll | noSession | connectAck | disconnect
  | process | expire | retransmit | ack | heartbeat => exact hrun

theorem TurnEvent.ne_stop {host : Endian} {t : WorkerTurn} {e : ServerEvent}
    (h : TurnEvent host t e) : e ≠ .stop := by
  cases h with
  | call c => cases c <;> exact nofun
  | packet _ he =>
    obtain ⟨-, d, -, pkt, rfl⟩ := mem_packets he
    exact nofun
  | drain | expire | retransmit | ack | heartbeat => exact nofun

section Turn

variable {host : Endian} {s : Server} {t : WorkerTurn} {ps : List ServerEvent}
  {r : Server × List (NetAddr × Packet)}

theorem Performs.running (h : Performs (TurnEvent host t) s ps r) (hrun : s.running = true) :
    r.1.running = true := by
  obtain ⟨es, hes, -, rfl⟩ := h
  rw [perform_fst]
  exact run_induction (P := fun s => s.running = true)
    (fun e he _ _ _ hs hm => hm.running (hes e he).ne_stop hs) hrun

theorem performs_callAll (s : Server) (calls : List AppCall) :
    Performs (TurnEvent host t) s [] (s.callAll calls) := by
  refine ⟨calls.map AppCall.event, fun e he => ?_, List.filter_eq_nil_iff.2 fun e he => ?_, rfl⟩
  · obtain ⟨c, -, rfl⟩ := List.mem_map.1 he
    exact .call c
  · obtain ⟨c, -, rfl⟩ := List.mem_map.1 he
    cases c <;> exact Bool.noConfusion

/-- A datagram that does not decode is no event. -/
theorem performs_onDatagram (hrun : s.running = true) {calls : List AppCall} {d : Datagram}
    (hd : (calls, d) ∈ t.datagrams) :
    Performs (TurnEvent host t) s (d.event host).toList (onDatagram host s d.srcAddr d.bytes d.nowNs
      d.stackAddr d.callocSend d.callocRecv d.sent) := by
  have hmem : ∀ e, d.event host = some e → e ∈ t.packets host := fun e he =>
    List.mem_filterMap.2 ⟨(calls, d), hd, he⟩
  unfold Datagram.event at hmem ⊢
  unfold onDatagram
  dsimp only
  cases hdec : decodeHeader host (d.bytes.take inBufSize) with
  | error e => exact .refl s
  | ok hdr =>
    -- the worker is running, so the event does what `handle` does
    rw [hdec] at hmem
    have hone : Performs (TurnEvent host t) s _ _ := .one (.packet _ (hmem _ rfl)) rfl
    simp only [exec, whileRunning, if_pos hrun] at hone
    exact hone

/-- The loop reads the datagrams one after the other. -/
theorem performs_receiveLoop {l : List (List AppCall × Datagram)} (hl : l ⊆ t.datagrams)
    (hrun : s.running = true) :
    Performs (TurnEvent host t) s (l.filterMap fun x => x.2.event host) (receiveLoop host s l) := by
  induction l generalizing s with
  | nil => exact .refl s
  | cons x l ih =>
    obtain ⟨calls, d⟩ := x
    obtain ⟨hd, hl⟩ := List.cons_subset.1 hl
    have hcalls : Performs (TurnEvent host t) s [] _ := performs_callAll s calls
    have hdatagram : Performs (TurnEvent host t) _ _ (onDatagram host _ d.srcAddr d.bytes d.nowNs
        d.stackAddr d.callocSend d.callocRecv d.sent) :=
      performs_onDatagram (hcalls.running hrun) hd
    have hboth := hcalls.trans hdatagram
    have hall := hboth.trans (ih hl (hboth.running hrun))
    have hps : ((calls, d) :: l).filterMap (fun x => x.2.event host) =
        [] ++ (d.event host).toList ++ l.filterMap fun x => x.2.event host := by
      rw [List.filterMap_cons, List.nil_append]
      cases d.event host <;> rfl
    rw [hps]
    exact hall

theorem performs_drainLoop {l : List (List AppCall × UInt64 × Bool)} (hl : l ⊆ t.drains)
    (hrun : s.running = true) (h : s.drainLoop l = some r) :
    Performs (TurnEvent host t) s [] r := by
  induction l generalizing s r with
  | nil => exact absurd h (by simp [drainLoop])
  | cons x l ih =>
    obtain ⟨calls, nowNs, sent⟩ := x
    obtain ⟨hd, hl⟩ := List.cons_subset.1 hl
    have hcalls : Performs (TurnEvent host t) s [] _ := performs_callAll s calls
    have hone : Performs (TurnEvent host t) (s.callAll calls).1 [] _ :=
      .one (.drain calls nowNs sent hd) rfl
    simp only [exec, whileRunning, if_pos (hcalls.running hrun)] at hone
    have hboth := hcalls.trans hone
    simp only [drainLoop] at h
    split at h
    · next s' out' heq =>
      rw [heq] at hboth
      exact Option.some.inj h ▸ hboth
    · next s' out' heq =>
      rw [heq] at hboth
      obtain ⟨r', hr', rfl⟩ := Option.map_eq_some_iff.1 h
      exact hboth.trans (ih hl (hboth.running hrun) hr')

/-! #### The timers of one slot -/

theorem setSession_setSession (s : Server) (i : ℕ) (x y : Session) :
    (s.setSession i x).setSession i y = s.setSession i y := by
  unfold setSession SessionTable.setSlot
  simp only [List.set_set]

theorem slot_setSession {i : ℕ} (hi : i < s.table.sessions.length) (x : Session) :
    (s.setSession i x).table.slot i = x := by
  rw [setSession, SessionTable.slot_setSlot _ hi, if_pos rfl]

variable {i : ℕ}

theorem exec_expire (hrun : s.running = true) (hoff : (s.table.slot i).state ≠ .disconnected)
    {nowNs : UInt64} (hsilent : nowNs - (s.table.slot i).lastActivityNs ≥
      msToNs s.config.inactivityTimeoutMs) :
    s.exec (.expire i nowNs) = ({ s with table := s.table.free i }, []) := by
  have hdue : ((s.table.slot i).active && decide (nowNs - (s.table.slot i).lastActivityNs ≥
      msToNs s.config.inactivityTimeoutMs)) = true := by
    rw [Session.active, decide_eq_true hoff, decide_eq_true hsilent]
    rfl
  simp only [exec, whileRunning, if_pos hrun, expireSession, if_pos hdue]

theorem exec_retransmit (hrun : s.running = true) (hstate : (s.table.slot i).state = .connected)
    (nowNs : UInt64) (sent : Bool) :
    s.exec (.retransmit i nowNs sent) = (s.setSession i (afterRetransmit (s.table.slot i) nowNs
      sent).1, (afterRetransmit (s.table.slot i) nowNs sent).2) := by
  simp only [exec, whileRunning, if_pos hrun, retransmitSession, if_pos hstate]
  rfl

theorem exec_ack (hrun : s.running = true) (hstate : (s.table.slot i).state = .connected)
    (hpending : (s.table.slot i).ackPending = true) (sent : Bool) :
    s.exec (.ack i sent) = (s.setSession i (sendPacket (s.table.slot i) sent .ack 0 0 [] 0).1,
      [(sendPacket (s.table.slot i) sent .ack 0 0 [] 0).2]) := by
  simp only [exec, whileRunning, if_pos hrun, ackSession, if_pos (And.intro hstate hpending)]
  rfl

theorem exec_heartbeat (hrun : s.running = true) (hstate : (s.table.slot i).state = .connected)
    {nowNs : UInt64} (hdue : nowNs - (s.table.slot i).lastHeartbeatSentNs ≥
      msToNs s.config.heartbeatIntervalMs) (sent : Bool) :
    s.exec (.heartbeat i nowNs sent) = (s.setSession i (afterHeartbeat (s.table.slot i) nowNs sent),
      [(sendPacket (s.table.slot i) sent .heartbeat 0 0 [] 0).2]) := by
  simp only [exec, whileRunning, if_pos hrun, heartbeatSession, if_pos (And.intro hstate hdue)]
  rfl

variable {x : Session}

theorem state_afterRetransmit (x : Session) (nowNs : UInt64) (sent : Bool) :
    (afterRetransmit x nowNs sent).1.state = x.state := rfl

theorem state_ackTimer (x : Session) (sent : Bool) : (ackTimer x sent).1.state = x.state := by
  unfold ackTimer
  split_ifs <;> rfl

theorem performs_ackTimer (hrun : s.running = true) (hi : i < s.table.sessions.length)
    (hstate : x.state = .connected) :
    Performs (TurnEvent host t) (s.setSession i x) []
      (s.setSession i (ackTimer x (t.sends i).ack).1, (ackTimer x (t.sends i).ack).2) := by
  have hslot := slot_setSession hi x
  unfold ackTimer
  split_ifs with hpending
  · have hone : Performs (TurnEvent host t) (s.setSession i x) [] _ := .one (.ack i) rfl
    have hexec := exec_ack (s := s.setSession i x) (i := i) hrun (by rw [hslot]; exact hstate)
      (by rw [hslot]; exact hpending) (t.sends i).ack
    rw [hexec, hslot, setSession_setSession] at hone
    exact hone
  · exact .refl _

theorem performs_heartbeatTimer (hrun : s.running = true) (hi : i < s.table.sessions.length)
    (hstate : x.state = .connected) :
    Performs (TurnEvent host t) (s.setSession i x) []
      (s.setSession i (heartbeatTimer s.config x t.timersNs (t.sends i).heartbeat).1,
        (heartbeatTimer s.config x t.timersNs (t.sends i).heartbeat).2) := by
  have hslot := slot_setSession hi x
  unfold heartbeatTimer
  split_ifs with hdue
  · have hone : Performs (TurnEvent host t) (s.setSession i x) [] _ := .one (.heartbeat i) rfl
    have hexec := exec_heartbeat (s := s.setSession i x) (i := i) hrun (by rw [hslot]; exact hstate)
      (by rw [hslot]; exact hdue) (t.sends i).heartbeat
    rw [hexec, hslot, setSession_setSession] at hone
    exact hone
  · exact .refl _

/-- The timers of a connected session: the three passes, one after the other. -/
theorem timerSlot_of_connected {nowNs : UInt64} {sends : TimerSends}
    (hstate : (s.table.slot i).state = .connected)
    (hsilent : ¬ nowNs - (s.table.slot i).lastActivityNs ≥ msToNs s.config.inactivityTimeoutMs) :
    s.timerSlot i nowNs sends =
      (s.setSession i (heartbeatTimer s.config (ackTimer (afterRetransmit (s.table.slot i) nowNs
          sends.retransmit).1 sends.ack).1 nowNs sends.heartbeat).1,
        (afterRetransmit (s.table.slot i) nowNs sends.retransmit).2 ++
          ((ackTimer (afterRetransmit (s.table.slot i) nowNs sends.retransmit).1 sends.ack).2 ++
            (heartbeatTimer s.config (ackTimer (afterRetransmit (s.table.slot i) nowNs
              sends.retransmit).1 sends.ack).1 nowNs sends.heartbeat).2)) := by
  have hoff : (s.table.slot i).state ≠ .disconnected := by
    rw [hstate]
    exact ConnState.noConfusion
  unfold timerSlot
  rw [if_neg hoff, if_neg hsilent, if_neg (not_not.2 hstate)]

/-- **The timers of a slot**: nothing, or the session is dropped, or the three passes. -/
theorem timerSlot_cases (s : Server) (i : ℕ) (nowNs : UInt64) (sends : TimerSends) :
    (((s.table.slot i).state = .disconnected ∨ (s.table.slot i).state ≠ .connected ∧
        ¬ nowNs - (s.table.slot i).lastActivityNs ≥ msToNs s.config.inactivityTimeoutMs) ∧
      s.timerSlot i nowNs sends = (s, [])) ∨
    ((s.table.slot i).state ≠ .disconnected ∧
      nowNs - (s.table.slot i).lastActivityNs ≥ msToNs s.config.inactivityTimeoutMs ∧
      s.timerSlot i nowNs sends = ({ s with table := s.table.free i }, [])) ∨
    ((s.table.slot i).state = .connected ∧
      ¬ nowNs - (s.table.slot i).lastActivityNs ≥ msToNs s.config.inactivityTimeoutMs) := by
  by_cases hoff : (s.table.slot i).state = .disconnected
  · refine Or.inl ⟨Or.inl hoff, ?_⟩
    unfold timerSlot
    exact if_pos hoff
  by_cases hsilent : nowNs - (s.table.slot i).lastActivityNs ≥ msToNs s.config.inactivityTimeoutMs
  · refine Or.inr (Or.inl ⟨hoff, hsilent, ?_⟩)
    unfold timerSlot
    exact (if_neg hoff).trans (if_pos hsilent)
  by_cases hstate : (s.table.slot i).state = .connected
  · exact Or.inr (Or.inr ⟨hstate, hsilent⟩)
  · refine Or.inl ⟨Or.inr ⟨hstate, hsilent⟩, ?_⟩
    unfold timerSlot
    exact ((if_neg hoff).trans (if_neg hsilent)).trans (if_pos hstate)

/-- **The timers of a slot are its events**, those that have something to do. -/
theorem performs_timerSlot (hrun : s.running = true) (i : ℕ) :
    Performs (TurnEvent host t) s [] (s.timerSlot i t.timersNs (t.sends i)) := by
  rcases timerSlot_cases s i t.timersNs (t.sends i) with ⟨-, heq⟩ | ⟨hoff, hsilent, heq⟩ |
    ⟨hconnected, hsilent⟩
  · rw [heq]
    exact .refl s
  · have hone : Performs (TurnEvent host t) s [] _ := .one (.expire i) rfl
    rw [exec_expire hrun hoff hsilent] at hone
    rw [heq]
    exact hone
  · have hi := SessionTable.lt_of_active (Session.active_of_connected hconnected)
    have hresent : Performs (TurnEvent host t) s [] _ := .one (.retransmit i) rfl
    rw [exec_retransmit hrun hconnected] at hresent
    have hstate := (state_afterRetransmit (s.table.slot i) t.timersNs
      (t.sends i).retransmit).trans hconnected
    have hacks : Performs (TurnEvent host t) _ [] _ := performs_ackTimer hrun hi hstate
    have hbeats : Performs (TurnEvent host t) _ [] _ :=
      performs_heartbeatTimer hrun hi ((state_ackTimer _ (t.sends i).ack).trans hstate)
    rw [timerSlot_of_connected hconnected hsilent]
    exact hresent.trans_mk (hacks.trans_mk hbeats)

theorem performs_timerLoop (hrun : s.running = true) (l : List ℕ) :
    Performs (TurnEvent host t) s [] (timerLoop t.timersNs t.sends s l) := by
  induction l generalizing s with
  | nil => exact .refl s
  | cons i l ih =>
    have hslot : Performs (TurnEvent host t) s [] _ := performs_timerSlot hrun i
    exact hslot.trans (ih (hslot.running hrun))

/-- The turn up to the timers, and the timers. -/
theorem performs_of_turn (hrun : s.running = true) (h : turn host s t = some r) :
    ∃ r', Performs (TurnEvent host t) s (t.packets host) r' ∧
      Performs (TurnEvent host t) r'.1 [] (timerLoop t.timersNs t.sends r'.1
        (List.range r'.1.table.maxClients.toNat)) ∧
      r = ((timerLoop t.timersNs t.sends r'.1 (List.range r'.1.table.maxClients.toNat)).1,
        r'.2 ++ (timerLoop t.timersNs t.sends r'.1
          (List.range r'.1.table.maxClients.toNat)).2) := by
  have hreceive : Performs (TurnEvent host t) s _ (receiveLoop host s t.datagrams) :=
    performs_receiveLoop (List.Subset.refl t.datagrams) hrun
  unfold turn at h
  dsimp only at h
  split at h
  · exact absurd h (by simp)
  · next s' out' hdrain =>
    have hdrained : Performs (TurnEvent host t) _ [] _ :=
      performs_drainLoop (List.Subset.refl t.drains) (hreceive.running hrun) hdrain
    have hall := (hreceive.trans hdrained).trans (performs_callAll _ t.calls)
    rw [List.append_nil, List.append_nil] at hall
    exact ⟨_, hall, performs_timerLoop (hall.running hrun) _, (Option.some.inj h).symm⟩

/-- **A turn of the worker is a run of the server**, and its packets are the datagrams read. -/
theorem turn_performs (hrun : s.running = true) (h : turn host s t = some r) :
    Performs (TurnEvent host t) s (t.packets host) r := by
  obtain ⟨r', hbefore, htimers, rfl⟩ := performs_of_turn hrun h
  have hall := hbefore.trans htimers
  rw [List.append_nil] at hall
  exact hall

end Turn

/-! ### The drain loop comes to an end -/

/-- The messages on their way to a window. -/
def waiting (s : Server) : ℕ := s.sendQueue.count + s.pendingItem.toList.length

/-- No message waits. -/
def Emptied (s : Server) : Prop := s.pendingItem = none ∧ s.sendQueue.count = 0

/-- The first message that waits is for a connected session whose window is full. -/
def Held (s : Server) : Prop :=
  ∃ item i, s.pendingItem = some item ∧ s.target item = some i ∧
    (s.table.slot i).sendWin.canSend = false

section Drain

variable {s : Server}

theorem waiting_call (hs : s.Stocked) (c : AppCall) :
    (s.exec c.event).1.waiting ≤ s.waiting + c.isSend.toNat := by
  suffices h : (s.exec c.event).1.pendingItem = s.pendingItem ∧
      (s.exec c.event).1.sendQueue.count ≤ s.sendQueue.count + c.isSend.toNat by
    rw [waiting, waiting, h.1]
    omega
  cases c with
  | send clientId mode data len =>
    obtain ⟨l, hl, -⟩ := hs.queue
    obtain ⟨-, hcount⟩ := hl.count_pushBack_le (.ofSend clientId mode data len)
    have hone :=
      Bool.toNat_le (s.sendQueue.pushBackLocked (.ofSend clientId mode data len)).1
    have hmoves := s.moves_exec (.send clientId mode data len)
    show (s.exec (.send clientId mode data len)).1.pendingItem = _ ∧
      (s.exec (.send clientId mode data len)).1.sendQueue.count ≤ _ + 1
    generalize (s.exec (.send clientId mode data len)).1 = s' at hmoves ⊢
    cases hmoves with
    | idle => exact ⟨rfl, Nat.le_succ _⟩
    | send => exact ⟨rfl, hcount.trans (Nat.add_le_add_left hone _)⟩
  | recv => exact ⟨rfl, le_rfl⟩
  | disconnectClient clientId =>
    simp only [AppCall.event, exec, Server.disconnectClient]
    split
    · exact ⟨rfl, le_rfl⟩
    · exact ⟨rfl, le_rfl⟩

theorem waiting_callAll (hs : s.Stocked) (calls : List AppCall) :
    (s.callAll calls).1.Stocked ∧
      (s.callAll calls).1.waiting ≤ s.waiting + calls.countP AppCall.isSend := by
  induction calls generalizing s with
  | nil => exact ⟨hs, le_rfl⟩
  | cons c calls ih =>
    obtain ⟨h1, h2⟩ := ih (hs.moves (s.moves_exec c.event))
    have hc := waiting_call hs c
    refine ⟨h1, h2.trans ?_⟩
    rw [List.countP_cons]
    cases hsend : c.isSend with
    | false =>
      rw [hsend] at hc
      simpa using hc
    | true =>
      rw [hsend] at hc
      simp only [Bool.toNat_true, if_true] at hc ⊢
      omega

/-- A turn that goes on is done with its item; one that ends the loop holds it. -/
theorem drainItem_ends (s : Server) (item : MpmcItem) (nowNs : UInt64) (sent : Bool) :
    ((s.drainItem item nowNs sent).1 = true ∧
        (s.drainItem item nowNs sent).2.1.pendingItem = none ∧
        (s.drainItem item nowNs sent).2.1.sendQueue = s.sendQueue) ∨
      ((s.drainItem item nowNs sent).1 = false ∧ (s.drainItem item nowNs sent).2.1 = s ∧
        ∃ i, s.target item = some i ∧ (s.table.slot i).sendWin.canSend = false) := by
  cases htarget : s.target item with
  | none =>
    rw [drainItem_discard htarget]
    exact Or.inl ⟨rfl, rfl, rfl⟩
  | some i =>
    cases hcan : (s.table.slot i).sendWin.canSend with
    | false =>
      rw [drainItem_hold htarget hcan]
      exact Or.inr ⟨rfl, rfl, i, rfl, hcan⟩
    | true =>
      obtain ⟨hfind, hstate⟩ := target_eq_some.1 htarget
      left
      simp only [drainItem, hfind, if_pos hstate, if_pos hcan]
      split
      · exact ⟨rfl, rfl, rfl⟩
      · exact ⟨rfl, rfl, rfl⟩

theorem waiting_takeItem (hs : s.Stocked) {item : MpmcItem} (h : s.takeItem.1 = some item) :
    s.takeItem.2.pendingItem = some item ∧ s.takeItem.2.sendQueue.count + 1 = s.waiting := by
  refine ⟨hs.takeItem.2.trans h, ?_⟩
  unfold takeItem at h ⊢
  unfold waiting
  cases hp : s.pendingItem with
  | some x => rfl
  | none =>
    obtain ⟨l, hl, -⟩ := hs.queue
    obtain ⟨h1, h2, -⟩ := hl.pop
    rw [hp] at h
    have hhead : l.head? = some item := h1.symm.trans h
    obtain ⟨rest, rfl⟩ := List.head?_eq_some_iff.1 hhead
    show s.sendQueue.popHeadLocked.2.count + 1 = s.sendQueue.count + 0
    rw [h2.count_eq, hl.count_eq]
    rfl

/-- **A turn of the drain loop** leaves one message fewer to the next, or is the last. -/
theorem drainStep_ends (hs : s.Stocked) (nowNs : UInt64) (sent : Bool) :
    ((s.drainStep nowNs sent).1 = true ∧ (s.drainStep nowNs sent).2.1.waiting + 1 = s.waiting) ∨
      ((s.drainStep nowNs sent).1 = false ∧
        ((s.drainStep nowNs sent).2.1.Emptied ∨ (s.drainStep nowNs sent).2.1.Held)) := by
  cases htake : s.takeItem.1 with
  | none =>
    right
    have hstop : (s.drainStep nowNs sent).1 = false := by
      unfold drainStep
      split
      · rfl
      · next heq =>
        rw [heq] at htake
        exact absurd htake (by simp)
    refine ⟨hstop, Or.inl ?_⟩
    rw [drainStep_none htake]
    refine ⟨hs.takeItem.2.trans htake, ?_⟩
    unfold takeItem at htake ⊢
    cases hp : s.pendingItem with
    | some x =>
      rw [hp] at htake
      exact absurd htake (by simp)
    | none =>
      obtain ⟨l, hl, -⟩ := hs.queue
      obtain ⟨h1, h2, -⟩ := hl.pop
      rw [hp] at htake
      have hnil : l = [] := List.head?_eq_none_iff.1 (h1.symm.trans htake)
      show s.sendQueue.popHeadLocked.2.count = 0
      rw [h2.count_eq, hnil]
      rfl
  | some item =>
    obtain ⟨hpending, hcount⟩ := waiting_takeItem hs htake
    rw [drainStep_some htake]
    rcases drainItem_ends s.takeItem.2 item nowNs sent with ⟨h1, h2, h3⟩ | ⟨h1, h2, i, h3, h4⟩
    · refine Or.inl ⟨h1, ?_⟩
      rw [waiting, h2, h3]
      exact hcount
    · refine Or.inr ⟨h1, Or.inr ?_⟩
      rw [h2]
      exact ⟨item, i, hpending, h3, h4⟩

/-- **The drain loop ends**, whatever the application does meanwhile, after as many turns as there
are messages waiting or still to be sent, and one more. Then no message waits, or the first is for a
connected session whose window is full. -/
theorem drain_ends {config : ServerConfig} {a : CreateAllocs} {s₀ : Server}
    (hcreate : create config a = some s₀) (es : List ServerEvent)
    (drains : List (List AppCall × UInt64 × Bool))
    (henough : (s₀.run es).waiting + (drains.map fun x => x.1.countP AppCall.isSend).sum <
      drains.length) :
    ∃ s out, (s₀.run es).drainLoop drains = some (s, out) ∧ (s.Emptied ∨ s.Held) := by
  have hs := stocked_run hcreate es
  generalize s₀.run es = s at hs henough
  induction drains generalizing s with
  | nil => exact absurd henough (Nat.not_lt_zero _)
  | cons x drains ih =>
    obtain ⟨calls, nowNs, sent⟩ := x
    obtain ⟨hstocked, hwaiting⟩ := waiting_callAll hs calls
    simp only [List.map_cons, List.sum_cons, List.length_cons] at henough
    have hstep : ((s.callAll calls).1.drainStep nowNs sent).2.1.Stocked :=
      hstocked.moves ((s.callAll calls).1.moves_drainStep nowNs sent)
    have hends := drainStep_ends hstocked nowNs sent
    simp only [drainLoop]
    generalize (s.callAll calls).1.drainStep nowNs sent = d at hends hstep ⊢
    obtain ⟨goesOn, s', out'⟩ := d
    rcases hends with ⟨rfl, hless⟩ | ⟨rfl, hend⟩
    · obtain ⟨s'', out'', hloop, hend⟩ := ih s' hstep (by dsimp only at hless; omega)
      exact ⟨s'', _, by dsimp only; rw [hloop]; rfl, hend⟩
    · exact ⟨s', _, rfl, hend⟩

/-- A client joins, in slot 0 and under session id 1. -/
def joins : List ServerEvent :=
  connects 1 ++ [.packet (.inet 0 0) (barePacket .connectAck 1 0) 2 0 true true true]

/-- A message for the client. -/
def sendOne : AppCall := .send 0 3 [5] 1

/-- Two messages wait and a third is sent meanwhile: four turns are enough. -/
theorem drain_ends_of_three :
    ∃ s₀ s out, create (tableConfig 1) CreateAllocs.allOk = some s₀ ∧
      (s₀.run (joins ++ [sendOne.event, sendOne.event])).drainLoop
        [([], 5, true), ([sendOne], 6, true), ([], 7, true), ([], 8, true)] = some (s, out) ∧
      out.length = 3 ∧ (s.Emptied ∨ s.Held) := by
  have hval : (create (tableConfig 1) CreateAllocs.allOk).map (fun s₀ =>
      ((s₀.run (joins ++ [sendOne.event, sendOne.event])).waiting,
        ((s₀.run (joins ++ [sendOne.event, sendOne.event])).drainLoop
          [([], 5, true), ([sendOne], 6, true), ([], 7, true), ([], 8, true)]).map
            fun r => r.2.length)) = some (2, some 3) := by
    decide +kernel
  obtain ⟨s₀, hs₀, hval⟩ := Option.map_eq_some_iff.1 hval
  rw [Prod.mk.injEq] at hval
  obtain ⟨s, out, hloop, hend⟩ := drain_ends hs₀ (joins ++ [sendOne.event, sendOne.event])
    [([], 5, true), ([sendOne], 6, true), ([], 7, true), ([], 8, true)]
    (by rw [hval.1]; decide)
  have hlength := hval.2
  rw [hloop, Option.map_some, Option.some.injEq] at hlength
  exact ⟨s₀, s, out, hs₀, hloop, hlength, hend⟩

end Drain

end Server

end Rel4u
