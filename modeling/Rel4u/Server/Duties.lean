import Rel4u.Channel.Link
import Rel4u.Server.Turn

/-!
# What a turn of the worker leaves done

A DATA packet that is accepted, or that repeats one, sets `ack_pending`; every packet to the client
carries the current acknowledgement, and clears the flag if it could be sent; the timers send an ACK
if the flag is still set. So a turn of the worker in which the sends succeed leaves nothing
unacknowledged (`acknowledged_each_turn`): the last word to each connected client is what its
receive window says now.

The timers look at every slot of the table, and what they do to one depends on that slot alone
(`slot_timerLoop`).
-/

namespace Rel4u

/-! ### What is owed -/

/-- One of the packets tells the session's client what its receive window has. -/
def Session.Tells (x : Session) (out : List (NetAddr × Packet)) : Prop :=
  ∃ pkt, (x.addr, pkt) ∈ out ∧ pkt.hdr.sessionId = x.sessionId ∧
    (pkt.hdr.ackNum, pkt.hdr.sackMask) = x.recvWin.getAckInfo

/-- `x` is the session `x₀`, which owed nothing, and has received nothing that shows since. -/
structure Session.Unmoved (x₀ x : Session) : Prop where
  active : x₀.active = true
  settled : x₀.ackPending = false
  sessionId : x.sessionId = x₀.sessionId
  addr : x.addr = x₀.addr
  ackInfo : x.recvWin.getAckInfo = x₀.recvWin.getAckInfo

/-- An acknowledgement is owed, or has been sent, or there has been no reason to send one. -/
def Session.Accounted (x₀ x : Session) (out : List (NetAddr × Packet)) : Prop :=
  x.active = true → x.ackPending = true ∨ x.Tells out ∨ Session.Unmoved x₀ x

namespace Session

section Accounted

variable {x₀ x x' : Session} {out out' : List (NetAddr × Packet)}

theorem accounted_self (x : Session) : Accounted x x [] := by
  intro hactive
  cases hpending : x.ackPending with
  | true => exact Or.inl rfl
  | false => exact Or.inr (Or.inr ⟨hactive, hpending, rfl, rfl, rfl⟩)

theorem Tells.accounted (h : x.Tells out') : Accounted x₀ x (out ++ out') := by
  obtain ⟨pkt, hmem, hpkt⟩ := h
  exact fun _ => Or.inr (Or.inl ⟨pkt, List.mem_append_right out hmem, hpkt⟩)

/-- A session of which nothing changes that is acknowledged. -/
theorem Accounted.congr (h : Accounted x₀ x out) (hactive : x'.active = x.active)
    (hid : x'.sessionId = x.sessionId) (haddr : x'.addr = x.addr)
    (hack : x'.recvWin.getAckInfo = x.recvWin.getAckInfo)
    (hpending : x'.ackPending = x.ackPending) : Accounted x₀ x' (out ++ out') := by
  intro hx'
  rcases h (hactive.symm.trans hx') with h | ⟨pkt, hmem, h1, h2⟩ | h
  · exact Or.inl (hpending.trans h)
  · right; left
    refine ⟨pkt, List.mem_append_left out' ?_, h1.trans hid.symm, h2.trans hack.symm⟩
    rw [haddr]
    exact hmem
  · exact Or.inr (Or.inr ⟨h.active, h.settled, hid.trans h.sessionId, haddr.trans h.addr,
      hack.trans h.ackInfo⟩)

end Accounted

end Session

namespace RecvWindow

/-- A packet that is turned away changes nothing. -/
theorem onData_refused (w : RecvWindow) (hdr : Header) (payload : List UInt8) {maxReady : ℕ}
    (hmax : maxReady ≠ 0)
    (h : ¬ ((w.onData hdr payload maxReady).1 = 0 ∨ (w.onData hdr payload maxReady).1 = 1)) :
    (w.onData hdr payload maxReady).2.1 = w := by
  have hcode : (w.onData hdr payload maxReady).1 = (w.onPacket hdr payload maxReady).1 := by
    unfold onData
    dsimp only
    split_ifs <;> rfl
  rw [hcode] at h
  obtain ⟨h0, h1⟩ := not_or.1 h
  have hwin : (w.onData hdr payload maxReady).2.1 = (w.onPacket hdr payload maxReady).2.1 := by
    unfold onData
    dsimp only
    rw [if_neg h0, if_neg h1]
  obtain ⟨f, hf, hrun⟩ := w.arrival_onPacket hdr payload
  rw [hrun maxReady hmax] at hwin h0
  rw [hwin]
  cases hf with
  | refused => rfl
  | unreliable | unordered | ordered => exact absurd rfl h0

end RecvWindow

namespace Server

theorem tells_sendPacket (x : Session) (type : PktType) (mode : UInt8) (seq : UInt32)
    (payload : List UInt8) (payloadLen : ℕ) (sent : Bool) :
    (sendPacket x sent type mode seq payload payloadLen).1.Tells
      [(sendPacket x sent type mode seq payload payloadLen).2] :=
  ⟨_, List.mem_singleton_self _, rfl, rfl⟩

/-- A packet of the session has it owe an acknowledgement, is answered with one, or changes nothing
that is acknowledged. -/
theorem processPacket_accounted (x : Session) (pkt : Packet) (nowNs : UInt64) (sent : Bool) :
    (processPacket x pkt nowNs sent).1.ackPending = true ∨
      (processPacket x pkt nowNs sent).1.Tells (processPacket x pkt nowNs sent).2.2 ∨
      ((processPacket x pkt nowNs sent).1.ackPending = x.ackPending ∧
        (processPacket x pkt nowNs sent).1.recvWin.getAckInfo = x.recvWin.getAckInfo) := by
  unfold processPacket
  dsimp only
  by_cases hbeat : pkt.hdr.packetType = PktType.heartbeat.code
  · have hdata : pkt.hdr.packetType ≠ PktType.data.code := by rw [hbeat]; decide
    rw [if_pos hbeat, if_neg hdata]
    exact Or.inr (Or.inl (tells_sendPacket _ _ _ _ _ _ _))
  · rw [if_neg hbeat]
    split_ifs with hdata
    · unfold onDataPacket
      dsimp only
      split_ifs with hres
      · exact Or.inl rfl
      · refine Or.inr (Or.inr ⟨rfl, ?_⟩)
        rw [x.recvWin.onData_refused pkt.hdr pkt.payload (by decide) hres]
    · exact Or.inr (Or.inr ⟨rfl, rfl⟩)

/-- A retransmission pass sends nothing, or tells the client what there is to acknowledge; it leaves
the rest of the session alone. -/
theorem afterRetransmit_accounted (x : Session) (nowNs : UInt64) (sent : Bool) :
    ((afterRetransmit x nowNs sent).1.Tells (afterRetransmit x nowNs sent).2 ∨
        (afterRetransmit x nowNs sent).1.ackPending = x.ackPending) ∧
      (afterRetransmit x nowNs sent).1.active = x.active ∧
      (afterRetransmit x nowNs sent).1.sessionId = x.sessionId ∧
      (afterRetransmit x nowNs sent).1.addr = x.addr ∧
      (afterRetransmit x nowNs sent).1.recvWin = x.recvWin := by
  have hpkt : ∀ pkt ∈ (Rel4u.retransmit x.sendWin x.rtt nowNs x.sessionId
      x.recvWin.getAckInfo).2.2, pkt.hdr.sessionId = x.sessionId ∧
        (pkt.hdr.ackNum, pkt.hdr.sackMask) = x.recvWin.getAckInfo :=
    fun pkt h => retransmit_packet h
  unfold afterRetransmit
  dsimp only
  generalize Rel4u.retransmit x.sendWin x.rtt nowNs x.sessionId x.recvWin.getAckInfo = r at hpkt
  obtain ⟨sendWin, rtt, packets⟩ := r
  refine ⟨?_, rfl, rfl, rfl, rfl⟩
  cases packets with
  | nil =>
    right
    simp
  | cons pkt rest =>
    left
    obtain ⟨h1, h2⟩ := hpkt pkt List.mem_cons_self
    exact ⟨pkt, List.mem_map.2 ⟨pkt, List.mem_cons_self, rfl⟩, h1, h2⟩

/-- **Every event keeps the account.** -/
theorem SlotMoves.accounted {s : Server} {i : ℕ} {e : ServerEvent} {x x₀ : Session}
    {out outs : List (NetAddr × Packet)} (h : SlotMoves s i e x out)
    (hs : Session.Accounted x₀ (s.table.slot i) outs) : Session.Accounted x₀ x (outs ++ out) := by
  have htouched := touched_eq (s.table.slot i)
  cases h with
  | same => exact hs.congr rfl rfl rfl rfl rfl
  | freed | disconnect => exact fun hactive => Bool.noConfusion hactive
  | accept => exact (tells_sendPacket _ _ _ _ _ _ _).accounted
  | enroll => exact (tells_sendPacket _ _ _ _ _ _ _).accounted
  | connectAck srcAddr pkt nowNs =>
    refine hs.congr (active_touched _ nowNs) ?_ ?_ ?_ ?_ <;> rw [htouched]
  | process srcAddr pkt nowNs stackAddr callocSend callocRecv sent =>
    obtain ⟨-, h2, h3, h4, -⟩ :=
      processPacket_fields (touched (s.table.slot i) nowNs) pkt nowNs sent
    rcases processPacket_accounted (touched (s.table.slot i) nowNs) pkt nowNs sent with
      h | h | ⟨h5, h6⟩
    · exact fun _ => Or.inl h
    · exact h.accounted
    · refine hs.congr ?_ (h2.trans ?_) (h3.trans ?_) (h6.trans ?_) (h5.trans ?_)
      · rw [Session.active, h4]
        exact active_touched _ nowNs
      all_goals rw [htouched]
  | push => exact (tells_sendPacket _ _ _ _ _ _ _).accounted
  | retransmit nowNs sent =>
    obtain ⟨h, h1, h2, h3, h4⟩ := afterRetransmit_accounted (s.table.slot i) nowNs sent
    rcases h with h | h
    · exact h.accounted
    · exact hs.congr h1 h2 h3 (by rw [h4]) h
  | ack => exact (tells_sendPacket _ _ _ _ _ _ _).accounted
  | heartbeat nowNs sent =>
    obtain ⟨pkt, hmem, h1, h2⟩ := tells_sendPacket (s.table.slot i) .heartbeat 0 0 [] 0 sent
    have htells : (afterHeartbeat (s.table.slot i) nowNs sent).Tells
        [(sendPacket (s.table.slot i) sent .heartbeat 0 0 [] 0).2] := ⟨pkt, hmem, h1, h2⟩
    exact htells.accounted

/-- **Every run keeps the account.** -/
theorem accounted_perform (i : ℕ) (es : List ServerEvent) {s : Server} {x₀ : Session}
    {outs : List (NetAddr × Packet)} (hs : Session.Accounted x₀ (s.table.slot i) outs) :
    Session.Accounted x₀ ((s.perform es).1.table.slot i) (outs ++ (s.perform es).2) := by
  induction es generalizing s outs with
  | nil =>
    rw [perform, List.append_nil]
    exact hs
  | cons e es ih =>
    have hstep := ih (((s.moves_exec e).slot i).accounted hs)
    rw [List.append_assoc] at hstep
    exact hstep

/-! ### The timers, slot by slot -/

/-- A session after its timers. -/
def timed (config : ServerConfig) (x : Session) (nowNs : UInt64) (sends : TimerSends) : Session :=
  if x.state = .disconnected then x
  else if nowNs - x.lastActivityNs ≥ msToNs config.inactivityTimeoutMs then x.freed
  else if x.state ≠ .connected then x
  else
    (heartbeatTimer config (ackTimer (afterRetransmit x nowNs sends.retransmit).1 sends.ack).1 nowNs
      sends.heartbeat).1

section Timers

variable {s : Server} {nowNs : UInt64} {sends : TimerSends}

theorem timed_of_connected {config : ServerConfig} {x : Session} (hstate : x.state = .connected)
    (hsilent : ¬ nowNs - x.lastActivityNs ≥ msToNs config.inactivityTimeoutMs) :
    timed config x nowNs sends =
      (heartbeatTimer config (ackTimer (afterRetransmit x nowNs sends.retransmit).1 sends.ack).1
        nowNs sends.heartbeat).1 := by
  have hoff : x.state ≠ .disconnected := by
    rw [hstate]
    exact ConnState.noConfusion
  unfold timed
  rw [if_neg hoff, if_neg hsilent, if_neg (not_not.2 hstate)]

theorem timerSlot_slot (s : Server) (i j : ℕ) :
    (s.timerSlot i nowNs sends).1.table.slot j =
      if j = i then timed s.config (s.table.slot i) nowNs sends else s.table.slot j := by
  rcases timerSlot_cases s i nowNs sends with ⟨hidle, heq⟩ | ⟨hoff, hsilent, heq⟩ |
    ⟨hstate, hsilent⟩
  · have hsame : timed s.config (s.table.slot i) nowNs sends = s.table.slot i := by
      unfold timed
      rcases hidle with hoff | ⟨hstate, hsilent⟩
      · rw [if_pos hoff]
      · rw [if_neg hsilent, if_pos hstate, ite_self]
    rw [heq, hsame]
    split_ifs with hj
    · rw [hj]
    · rfl
  · have hactive : (s.table.slot i).active = true := by
      rw [Session.active, decide_eq_true_eq]
      exact hoff
    rw [heq]
    unfold timed
    rw [if_neg hoff, if_pos hsilent]
    split_ifs with hj
    · rw [hj]
      exact slot_free_self hactive
    · exact s.table.slot_free_of_ne hj
  · have hi := SessionTable.lt_of_active (Session.active_of_connected hstate)
    rw [timerSlot_of_connected hstate hsilent, timed_of_connected hstate hsilent]
    exact s.table.slot_setSlot hi _ j

theorem timerSlot_config (s : Server) (i : ℕ) :
    (s.timerSlot i nowNs sends).1.config = s.config := by
  rcases timerSlot_cases s i nowNs sends with ⟨-, heq⟩ | ⟨-, -, heq⟩ | ⟨hstate, hsilent⟩
  · rw [heq]
  · rw [heq]
  · rw [timerSlot_of_connected hstate hsilent]
    rfl

/-- **The timers of a slot depend on that slot alone.** -/
theorem slot_timerLoop (nowNs : UInt64) (sends : ℕ → TimerSends) {l : List ℕ} (hl : l.Nodup)
    (s : Server) (j : ℕ) :
    (timerLoop nowNs sends s l).1.table.slot j =
      if j ∈ l then timed s.config (s.table.slot j) nowNs (sends j) else s.table.slot j := by
  induction l generalizing s with
  | nil => simp [timerLoop]
  | cons i l ih =>
    obtain ⟨hi, hl⟩ := List.nodup_cons.1 hl
    have hrest := ih hl (s.timerSlot i nowNs (sends i)).1
    rw [timerSlot_config, timerSlot_slot] at hrest
    refine hrest.trans ?_
    by_cases hj : j = i
    · subst hj
      rw [if_neg hi, if_pos rfl, if_pos List.mem_cons_self]
    · rw [if_neg hj]
      simp only [List.mem_cons, hj, false_or]

theorem ackTimer_spec (x : Session) {sent : Bool} (hsent : sent = true) :
    (ackTimer x sent).1.ackPending = false := by
  unfold ackTimer
  split_ifs with hpending
  · rw [hsent]
    rfl
  · simpa using hpending

theorem heartbeatTimer_spec (config : ServerConfig) {x : Session} (hx : x.ackPending = false)
    (nowNs : UInt64) (sent : Bool) :
    (heartbeatTimer config x nowNs sent).1.ackPending = false := by
  unfold heartbeatTimer
  split_ifs
  · show (if sent then false else x.ackPending) = false
    rw [hx, ite_self]
  · exact hx

/-- A connected session owes nothing after its timers, unless the ACK could not be sent. -/
theorem timed_spec (config : ServerConfig) (x : Session) (nowNs : UInt64) (sends : TimerSends)
    (hconnected : (timed config x nowNs sends).state = .connected) (hack : sends.ack = true) :
    (timed config x nowNs sends).ackPending = false := by
  unfold timed at hconnected ⊢
  split_ifs at hconnected ⊢ with hoff hsilent hstate
  · rw [hoff] at hconnected
    exact ConnState.noConfusion hconnected
  · exact ConnState.noConfusion hconnected
  · exact absurd hconnected hstate
  · exact heartbeatTimer_spec config (ackTimer_spec _ hack) nowNs sends.heartbeat

end Timers

/-! ### The end of a turn -/

/-- Every packet of the turn could be sent. -/
structure AllSent (t : WorkerTurn) : Prop where
  datagrams : ∀ x ∈ t.datagrams, x.2.sent = true
  drains : ∀ x ∈ t.drains, x.2.2 = true
  timers : ∀ i, t.sends i = ⟨true, true, true⟩

section End

variable {config : ServerConfig} {a : CreateAllocs} {s₀ : Server} {es : List ServerEvent}
  {host : Endian} {t : WorkerTurn} {s : Server} {out : List (NetAddr × Packet)}

theorem Performs.exists_run {P : ServerEvent → Prop} {ps : List ServerEvent}
    {r : Server × List (NetAddr × Packet)} (h : Performs P (s₀.run es) ps r) :
    ∃ es', (∀ e ∈ es', P e) ∧ es'.filter isPacket = ps ∧ r.1 = s₀.run (es ++ es') := by
  obtain ⟨es', hes', hps, rfl⟩ := h
  refine ⟨es', hes', hps, ?_⟩
  rw [perform_fst, run, run, run, List.foldl_append]

/-- **Every slot has been through its timers**, and nothing has happened since. -/
theorem slot_of_turn (hcreate : create config a = some s₀) (hrun : (s₀.run es).running = true)
    (hturn : turn host (s₀.run es) t = some (s, out)) :
    ∃ es', (∀ e ∈ es', TurnEvent host t e) ∧ es'.filter isPacket = t.packets host ∧
      s = (timerLoop t.timersNs t.sends (s₀.run (es ++ es'))
        (List.range (s₀.run (es ++ es')).table.maxClients.toNat)).1 ∧
      ∀ i, s.table.slot i = timed (s₀.run (es ++ es')).config ((s₀.run (es ++ es')).table.slot i)
        t.timersNs (t.sends i) := by
  obtain ⟨r, hbefore, -, heq⟩ := performs_of_turn hrun hturn
  obtain ⟨es', hes', hps, hr⟩ := hbefore.exists_run
  obtain ⟨rfl, -⟩ := Prod.mk.inj heq
  refine ⟨es', hes', hps, by rw [hr], fun i => ?_⟩
  rw [← hr, slot_timerLoop t.timersNs t.sends List.nodup_range]
  split_ifs with hi
  · rfl
  · -- a slot that the loop does not look at is not in the table
    have hsized : Sized r.1.table := by
      rw [hr]
      exact sized_run hcreate _
    rw [SessionTable.slot_of_le (by rw [hsized]; exact not_lt.1 (mt List.mem_range.2 hi))]
    rfl

/-- **Every turn pays its acknowledgements.** When a turn of the worker ends in which every packet
could be sent, no connected session owes an acknowledgement, and in that turn each has been sent one
that says what its receive window has now, unless it owed none when the turn began and there is
nothing new to acknowledge. -/
theorem acknowledged_each_turn (hcreate : create config a = some s₀)
    (hrun : (s₀.run es).running = true) (hturn : turn host (s₀.run es) t = some (s, out))
    (hsent : AllSent t) {i : ℕ} (hconnected : (s.table.slot i).state = .connected) :
    (s.table.slot i).ackPending = false ∧
      ((s.table.slot i).Tells out ∨
        Session.Unmoved ((s₀.run es).table.slot i) (s.table.slot i)) := by
  have hactive := Session.active_of_connected hconnected
  have hpending : (s.table.slot i).ackPending = false := by
    obtain ⟨es', -, -, -, hslot⟩ := slot_of_turn hcreate hrun hturn
    have hspec := timed_spec (s₀.run (es ++ es')).config ((s₀.run (es ++ es')).table.slot i)
      t.timersNs (t.sends i)
    rw [← hslot i] at hspec
    exact hspec hconnected (by rw [hsent.timers i])
  refine ⟨hpending, ?_⟩
  obtain ⟨es', -, -, heq⟩ := turn_performs hrun hturn
  have haccount := accounted_perform i es' (Session.accounted_self ((s₀.run es).table.slot i))
  rw [heq] at haccount
  rcases haccount hactive with h | h
  · rw [hpending] at h
    exact Bool.noConfusion h
  · exact h

/-- A turn in which the client's first message arrives, and nothing is to be sent. -/
def firstMessage : WorkerTurn where
  datagrams :=
    [([], { srcAddr := .inet 0 0
            bytes := (mkPacket .data 3 1 1 (0, 0) [7] 1).datagram .little
            nowNs := 3
            stackAddr := 0
            callocSend := true
            callocRecv := true
            sent := true })]
  drains := [([], 4, true)]
  calls := []
  timersNs := 5
  sends := fun _ => ⟨true, true, true⟩

/-- The message is acknowledged before the turn is over. -/
theorem acknowledged_each_turn_first :
    ∃ s₀ s out, create (tableConfig 1) CreateAllocs.allOk = some s₀ ∧
      turn .little (s₀.run joins) firstMessage = some (s, out) ∧
      (s.table.slot 0).recvWin.getAckInfo = (1, 0) ∧ (s.table.slot 0).ackPending = false ∧
      (s.table.slot 0).Tells out := by
  have hval : (create (tableConfig 1) CreateAllocs.allOk).map (fun s₀ =>
      ((s₀.run joins).running, ((s₀.run joins).table.slot 0).recvWin.getAckInfo,
        (turn .little (s₀.run joins) firstMessage).map fun r =>
          ((r.1.table.slot 0).state, (r.1.table.slot 0).recvWin.getAckInfo))) =
      some (true, (0, 0), some (.connected, (1, 0))) := by
    decide +kernel
  obtain ⟨s₀, hs₀, hval⟩ := Option.map_eq_some_iff.1 hval
  simp only [Prod.mk.injEq, Option.map_eq_some_iff] at hval
  obtain ⟨hrun, hbefore, ⟨s, out⟩, hturn, hstate, hafter⟩ := hval
  have hsent : AllSent firstMessage :=
    ⟨by simp [firstMessage], by simp [firstMessage], fun _ => rfl⟩
  obtain ⟨hpending, htells | hunmoved⟩ := acknowledged_each_turn hs₀ hrun hturn hsent hstate
  · exact ⟨s₀, s, out, hs₀, hturn, hafter, hpending, htells⟩
  · have hack := hunmoved.ackInfo
    rw [hbefore, hafter] at hack
    exact absurd hack (by decide)

end End

end Server

end Rel4u
