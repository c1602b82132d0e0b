import Rel4u.Server.Address
import Rel4u.Server.Duties

/-!
# Who is dropped for inactivity

The timers free a session when its `last_activity_ns` is as old as the inactivity timeout. That
field is written in three places; `contact` says when it should be, from the packets alone: a
CONNECT_REQ that is answered, and a packet of the session, count, and nothing that the server sends
does.

`inactivity_exact` says that this is what the table shows. At the end of a turn of the worker the
sessions in the table are those from which a packet has come within the timeout.
-/

namespace Rel4u

namespace Server

/-- The clock of a packet that the server takes to come from the client in slot `i`. -/
def contact (s : Server) (i : ℕ) : ServerEvent → Option UInt64
  | .packet srcAddr pkt nowNs stackAddr callocSend callocRecv sent =>
    if s.running = false then none
    else
      match s.table.findByAddr srcAddr with
      | some j =>
        if j = i ∧ (pkt.hdr.packetType = PktType.connectReq.code ∨
            (s.table.slot i).sessionId = pkt.hdr.sessionId) then some nowNs
        else none
      | none =>
        if s.allocatedSlot (.packet srcAddr pkt nowNs stackAddr callocSend callocRecv sent) = some i
        then some nowNs
        else none
  | _ => none

/-- The clock of the last packet from the client in slot `i`, or `last` if there is none. -/
def lastContact (i : ℕ) (s : Server) (last : UInt64) : List ServerEvent → UInt64
  | [] => last
  | e :: es => lastContact i (s.exec e).1 ((s.contact i e).getD last) es

section Contact

variable {s : Server} {i : ℕ} {srcAddr : NetAddr} {pkt : Packet} {nowNs stackAddr : UInt64}
  {callocSend callocRecv sent : Bool}

theorem lastActivityNs_touched (x : Session) (nowNs : UInt64) :
    (touched x nowNs).lastActivityNs = nowNs := by rw [touched_eq]

theorem contact_eq_some {last : UInt64} :
    s.contact i (.packet srcAddr pkt nowNs stackAddr callocSend callocRecv sent) = some last ↔
      s.running = true ∧ nowNs = last ∧
        ((s.table.findByAddr srcAddr = some i ∧
            (pkt.hdr.packetType = PktType.connectReq.code ∨
              (s.table.slot i).sessionId = pkt.hdr.sessionId)) ∨
          (s.table.findByAddr srcAddr = none ∧ s.allocatedSlot
            (.packet srcAddr pkt nowNs stackAddr callocSend callocRecv sent) = some i)) := by
  cases hrun : s.running <;> cases hfind : s.table.findByAddr srcAddr <;>
    simp [contact, hrun, hfind]
  · rw [and_comm]
  · rw [and_comm]

theorem contact_of_findByAddr (hrun : s.running = true)
    (hfind : s.table.findByAddr srcAddr = some i)
    (hpkt : pkt.hdr.packetType = PktType.connectReq.code ∨
      (s.table.slot i).sessionId = pkt.hdr.sessionId) :
    s.contact i (.packet srcAddr pkt nowNs stackAddr callocSend callocRecv sent) = some nowNs :=
  contact_eq_some.2 ⟨hrun, rfl, Or.inl ⟨hfind, hpkt⟩⟩

theorem contact_of_allocate (hrun : s.running = true)
    (htype : pkt.hdr.packetType = PktType.connectReq.code)
    (hfind : s.table.findByAddr srcAddr = none) {session : Session} {table : SessionTable}
    (halloc : s.table.allocate srcAddr (newSessionId nowNs stackAddr) callocSend callocRecv =
      (some ((i : ℤ), session), table)) :
    s.contact i (.packet srcAddr pkt nowNs stackAddr callocSend callocRecv sent) = some nowNs := by
  have h0 : (0 : ℤ) ≤ i := Int.natCast_nonneg i
  refine contact_eq_some.2 ⟨hrun, rfl, Or.inr ⟨hfind, ?_⟩⟩
  simp only [allocatedSlot, hrun, htype, hfind, and_self, if_true, halloc, if_pos h0,
    Int.toNat_natCast]

/-- **A packet from the client is noted**, if the session is still there after it. -/
theorem lastActivityNs_of_contact {e : ServerEvent} {last : UInt64} (h : s.contact i e = some last)
    (hactive : ((s.exec e).1.table.slot i).active = true) :
    ((s.exec e).1.table.slot i).lastActivityNs = last := by
  cases e with
  | packet srcAddr pkt nowNs stackAddr callocSend callocRecv sent =>
    obtain ⟨hrun, rfl, hcase⟩ := contact_eq_some.1 h
    simp only [exec, whileRunning, if_pos hrun, handle] at hactive ⊢
    rcases hcase with ⟨hfind, hpkt⟩ | ⟨hfind, hslot⟩
    · have hi := SessionTable.lt_of_active (SessionTable.findByAddr_some hfind).1
      have hset : ∀ x, (s.table.setSlot i x).slot i = x := fun x => by
        rw [SessionTable.slot_setSlot _ hi, if_pos rfl]
      by_cases hreq : pkt.hdr.packetType = PktType.connectReq.code
      · have h0 : (0 : ℤ) ≤ i := Int.natCast_nonneg i
        simp only [if_pos hreq, onConnectReq, hfind, acceptConnect, SessionTable.setSessionAt,
          if_pos h0, Int.toNat_natCast, hset]
        rfl
      · have hid := hpkt.resolve_left hreq
        have htouched := lastActivityNs_touched (s.table.slot i) nowNs
        simp only [if_neg hreq, hfind, hid, ne_eq, not_true_eq_false, if_false] at hactive ⊢
        unfold onSessionPacket at hactive ⊢
        dsimp only at hactive ⊢
        split_ifs at hactive ⊢ with hack hdisconnect
        · dsimp only
          rw [hset]
          exact htouched
        · dsimp only at hactive
          rw [slot_free_self, hset] at hactive
          · exact Bool.noConfusion hactive
          · rw [hset, active_touched]
            exact (SessionTable.findByAddr_some hfind).1
        · obtain ⟨-, -, -, -, h5, -⟩ :=
            processPacket_fields (touched (s.table.slot i) nowNs) pkt nowNs sent
          dsimp only
          rw [hset, h5]
          exact htouched
    · unfold allocatedSlot at hslot
      dsimp only at hslot
      split_ifs at hslot with hguard
      generalize halloc : s.table.allocate srcAddr (newSessionId nowNs stackAddr) callocSend
        callocRecv = r at hslot
      obtain ⟨_ | ⟨slotIdx, session⟩, table⟩ := r
      · exact absurd hslot (by simp)
      · dsimp only at hslot
        split_ifs at hslot with h0
        obtain rfl : (i : ℤ) = slotIdx := by
          rw [← Option.some.inj hslot]
          exact Int.toNat_of_nonneg h0
        simp only [if_pos hguard.2.1, onConnectReq, hfind, halloc, acceptConnect] at hactive ⊢
        rw [slot_setSessionAt_allocate halloc] at hactive ⊢
        rcases s.table.slot_setSlot_self i (answered session nowNs sent) with heq | heq
        · exact congrArg Session.lastActivityNs heq
        · have hoff := congrArg Session.active heq
          exact Bool.noConfusion (hactive.symm.trans hoff)
  | _ => exact absurd h (by simp [contact])

/-- **Nothing else changes the field.** -/
theorem lastActivityNs_of_no_contact {e : ServerEvent} (h : s.contact i e = none)
    (hactive : ((s.exec e).1.table.slot i).active = true) :
    (s.table.slot i).active = true ∧
      ((s.exec e).1.table.slot i).lastActivityNs = (s.table.slot i).lastActivityNs := by
  by_cases hrun : isPacket e = true → s.running = true
  · have hmoves := (s.moves_exec e).slot i
    generalize (s.exec e).1.table.slot i = x at hactive hmoves ⊢
    generalize (s.exec e).2 = out at hmoves
    cases hmoves with
    | same | push | ack | heartbeat | retransmit => exact ⟨hactive, rfl⟩
    | freed | disconnect => exact Bool.noConfusion hactive
    | accept _ _ _ _ _ _ _ htype hfind =>
      rw [contact_of_findByAddr (hrun rfl) hfind (Or.inl htype)] at h
      exact absurd h (by simp)
    | enroll _ _ _ _ _ _ _ htype hfind session table halloc =>
      rw [contact_of_allocate (hrun rfl) htype hfind halloc] at h
      exact absurd h (by simp)
    | connectAck _ _ _ _ _ _ _ hfind hid =>
      rw [contact_of_findByAddr (hrun rfl) hfind (Or.inr hid)] at h
      exact absurd h (by simp)
    | process _ _ _ _ _ _ _ hfind hid =>
      rw [contact_of_findByAddr (hrun rfl) hfind (Or.inr hid)] at h
      exact absurd h (by simp)
  · -- nobody reads the socket
    push Not at hrun
    obtain ⟨hpkt, hstopped⟩ := hrun
    cases e with
    | packet srcAddr pkt nowNs stackAddr callocSend callocRecv sent =>
      simp only [exec, whileRunning, if_neg hstopped] at hactive ⊢
      exact ⟨hactive, trivial⟩
    | _ => exact Bool.noConfusion hpkt

end Contact

/-- **The field is the last contact.** -/
theorem lastActivityNs_run (i : ℕ) (es : List ServerEvent) {s : Server} {last : UInt64}
    (hs : (s.table.slot i).active = true → (s.table.slot i).lastActivityNs = last)
    (hactive : ((s.run es).table.slot i).active = true) :
    ((s.run es).table.slot i).lastActivityNs = s.lastContact i last es := by
  induction es generalizing s last with
  | nil => exact hs hactive
  | cons e es ih =>
    refine ih (fun hstep => ?_) hactive
    cases hcontact : s.contact i e with
    | some nowNs => exact lastActivityNs_of_contact hcontact hstep
    | none =>
      obtain ⟨hwas, hsame⟩ := lastActivityNs_of_no_contact hcontact hstep
      exact hsame.trans (hs hwas)

/-! ### The end of a turn -/

end Server

/-- The clock when a packet is read. -/
def ServerEvent.readAt : ServerEvent → Option UInt64
  | .packet _ _ nowNs _ _ _ _ => some nowNs
  | _ => none

namespace Server

theorem contact_le {s : Server} {i : ℕ} {e : ServerEvent} {nowNs c : UInt64}
    (h : s.contact i e = some c) (he : ∀ c ∈ e.readAt, c ≤ nowNs) : c ≤ nowNs := by
  cases e with
  | packet =>
    obtain ⟨-, rfl, -⟩ := contact_eq_some.1 h
    exact he _ rfl
  | _ => exact absurd h (by simp [contact])

theorem lastContact_le (i : ℕ) {es : List ServerEvent} {nowNs : UInt64}
    (hes : ∀ e ∈ es, ∀ c ∈ e.readAt, c ≤ nowNs) {s : Server} {last : UInt64}
    (hlast : last ≤ nowNs) : s.lastContact i last es ≤ nowNs := by
  induction es generalizing s last with
  | nil => exact hlast
  | cons e es ih =>
    refine ih (fun e' he' => hes e' (List.mem_cons_of_mem e he')) ?_
    cases hcontact : s.contact i e with
    | some c => exact contact_le hcontact (hes e List.mem_cons_self)
    | none => exact hlast

theorem config_run (s : Server) (es : List ServerEvent) : (s.run es).config = s.config :=
  run_induction (P := fun s' => s'.config = s.config)
    (fun _ _ _ _ _ hs hm => hm.config_eq.trans hs) rfl

/-- A session is freed by its timers if it has been silent for too long, and for no other
reason. -/
theorem active_timed (config : ServerConfig) (x : Session) (nowNs : UInt64) (sends : TimerSends) :
    (timed config x nowNs sends).active = true ↔
      x.active = true ∧ nowNs - x.lastActivityNs < msToNs config.inactivityTimeoutMs := by
  unfold timed
  split_ifs with hoff hsilent hstate
  · simp [Session.active, hoff]
  · exact ⟨fun h => Bool.noConfusion h, fun h => absurd h.2 (UInt64.not_lt.2 hsilent)⟩
  · exact ⟨fun h => ⟨h, UInt64.not_le.1 hsilent⟩, And.left⟩
  · have hconnected : x.state = .connected := not_not.1 hstate
    have hactive := Session.active_of_connected hconnected
    refine ⟨fun _ => ⟨hactive, UInt64.not_le.1 hsilent⟩, fun _ => ?_⟩
    unfold heartbeatTimer ackTimer
    split_ifs <;> exact hactive

theorem toNat_msToNs (ms : UInt32) : (msToNs ms).toNat = ms.toNat * 1000000 := by
  have hms := ms.toNat_lt
  rw [msToNs, UInt64.toNat_mul, UInt32.toNat_toUInt64]
  exact Nat.mod_eq_of_lt (by show ms.toNat * 1000000 < 2 ^ 64; omega)

/-- Nobody is connected to a server that has just been created. -/
theorem create_inactive {config : ServerConfig} {a : CreateAllocs} {s : Server}
    (h : create config a = some s) (i : ℕ) : (s.table.slot i).active = false := by
  obtain ⟨_, _, t, -, -, ht, rfl⟩ := create_some h
  unfold SessionTable.init at ht
  split_ifs at ht
  rw [Option.some.injEq] at ht
  subst ht
  dsimp only
  by_cases hi : i < config.withDefaults.maxClients.toNat
  · rw [SessionTable.slot_eq_getElem (by simpa using hi)]
    simp [SessionTable.initSession, Session.active]
  · rw [SessionTable.slot_of_le (by simpa using hi)]
    rfl

/-- The timeout in nanoseconds. -/
def inactivityNs (s : Server) : ℕ := s.config.inactivityTimeoutMs.toNat * 1000000

/-- **The timers free the silent sessions and no others.** If no packet has been read after the
timers' clock, then at the end of a turn the occupied slots are those that were occupied before the
timers and whose client has been heard of within the timeout. The packets of the turn are its
datagrams that decode, in order. -/
theorem inactivity_exact {config : ServerConfig} {a : CreateAllocs} {s₀ : Server}
    (hcreate : create config a = some s₀) {es : List ServerEvent}
    (hrun : (s₀.run es).running = true) {host : Endian} {t : WorkerTurn} {s : Server}
    {out : List (NetAddr × Packet)} (hturn : turn host (s₀.run es) t = some (s, out))
    (hbefore : ∀ e ∈ es, ∀ c ∈ e.readAt, c ≤ t.timersNs)
    (hduring : ∀ x ∈ t.datagrams, x.2.nowNs ≤ t.timersNs) :
    ∃ es', (∀ e ∈ es', TurnEvent host t e) ∧ es'.filter isPacket = t.packets host ∧
      s = (timerLoop t.timersNs t.sends (s₀.run (es ++ es'))
        (List.range (s₀.run (es ++ es')).table.maxClients.toNat)).1 ∧
      ∀ i, (s.table.slot i).active = true ↔ ((s₀.run (es ++ es')).table.slot i).active = true ∧
        t.timersNs.toNat < (s₀.lastContact i 0 (es ++ es')).toNat + s₀.inactivityNs := by
  obtain ⟨es', hes', hpackets, hs, hslot⟩ := slot_of_turn hcreate hrun hturn
  refine ⟨es', hes', hpackets, hs, fun i => ?_⟩
  rw [hslot i, active_timed, config_run]
  refine and_congr_right fun hactive => ?_
  have hall : ∀ e ∈ es ++ es', ∀ c ∈ e.readAt, c ≤ t.timersNs := by
    refine List.forall_mem_append.2 ⟨hbefore, fun e he c hc => ?_⟩
    cases hes' e he with
    | packet _ hpacket =>
      obtain ⟨calls, d, hd, pkt, rfl⟩ := mem_packets hpacket
      exact Option.some.inj hc ▸ hduring _ hd
    | call call => cases call <;> exact absurd hc (by simp [AppCall.event, ServerEvent.readAt])
    | drain | expire | retransmit | ack | heartbeat =>
      exact absurd hc (by simp [ServerEvent.readAt])
  have hinit : (s₀.table.slot i).active = true → (s₀.table.slot i).lastActivityNs = 0 := fun h => by
    rw [create_inactive hcreate] at h
    exact Bool.noConfusion h
  have hle : s₀.lastContact i 0 (es ++ es') ≤ t.timersNs := lastContact_le i hall UInt64.zero_le
  have hfield := lastActivityNs_run i (es ++ es') hinit hactive
  rw [hfield, UInt64.lt_iff_toNat_lt, UInt64.toNat_sub_of_le _ _ hle, toNat_msToNs]
  have hle' := UInt64.le_iff_toNat_le.1 hle
  unfold inactivityNs
  omega

/-- A turn that reads a datagram too short to decode and, after a second, one of the second client;
its timers run five seconds after the first client was last heard of. -/
def oneTalks : WorkerTurn where
  datagrams :=
    [([], { srcAddr := .inet 0 0
            bytes := [1, 2, 3]
            nowNs := 900000000
            stackAddr := 0
            callocSend := true
            callocRecv := true
            sent := true }),
      ([], { srcAddr := .inet 0 1
             bytes := (barePacket .connectAck 1 0).datagram .little
             nowNs := 1000000000
             stackAddr := 0
             callocSend := true
             callocRecv := true
             sent := true })]
  drains := [([], 5000000000, true)]
  calls := []
  timersNs := 5000000001
  sends := fun _ => ⟨true, true, true⟩

/-- Of two clients the first is dropped and the second, whose packet is the one of the turn, is
not. -/
theorem inactivity_exact_of_two :
    ∃ s₀ s out, create (tableConfig 2) CreateAllocs.allOk = some s₀ ∧
      turn .little (s₀.run (connects 2)) oneTalks = some (s, out) ∧
      (s.table.slot 0).active = false ∧ (s.table.slot 1).active = true ∧
      ∃ es', es'.filter isPacket = oneTalks.packets .little ∧
        (oneTalks.packets .little).length = 1 ∧
        oneTalks.timersNs.toNat <
          (s₀.lastContact 1 0 (connects 2 ++ es')).toNat + s₀.inactivityNs := by
  have hval : (create (tableConfig 2) CreateAllocs.allOk).map (fun s₀ =>
      ((s₀.run (connects 2)).running, (turn .little (s₀.run (connects 2)) oneTalks).map fun r =>
        ((r.1.table.slot 0).active, (r.1.table.slot 1).active))) =
      some (true, some (false, true)) := by
    decide +kernel
  obtain ⟨s₀, hs₀, hval⟩ := Option.map_eq_some_iff.1 hval
  simp only [Prod.mk.injEq, Option.map_eq_some_iff] at hval
  obtain ⟨hrun, ⟨s, out⟩, hturn, hfirst, hsecond⟩ := hval
  have hall : ∀ e ∈ connects 2, e.readAt.all (fun c => decide (c ≤ oneTalks.timersNs)) = true := by
    decide +kernel
  have hclocks : ∀ e ∈ connects 2, ∀ c ∈ e.readAt, c ≤ oneTalks.timersNs := fun e he c hc => by
    have hc' := hall e he
    rw [Option.mem_def.1 hc] at hc'
    exact of_decide_eq_true hc'
  obtain ⟨es', -, hpackets, -, hactive⟩ := inactivity_exact hs₀ hrun hturn hclocks
    (by simp [oneTalks])
  exact ⟨s₀, s, out, hs₀, hturn, hfirst, hsecond, es', hpackets, by decide +kernel,
    ((hactive 1).1 hsecond).2⟩

end Server

end Rel4u
