import Rel4u.Client.Reconnect
import Rel4u.Server.TableRun

/-!
# Datagrams that do not concern an endpoint

A datagram is any string of bytes from any address. `datagram_isolation` says what it cannot touch.

At the server, a datagram that does not decode or belongs to no session changes nothing, one that
belongs to a session leaves the other sessions and `send_queue` alone, and a CONNECT_REQ leaves both
queues alone and every session but the one it finds or the one it takes the slot of.

At the client, the tests that stand before the handling are `Client.admits`; what does not pass them
changes nothing. The client's worker takes its decisions by the state it has loaded at the head of
its turn, `workerState`.
-/

namespace Rel4u

/-- The session in slot `i` has this source address and the session id of this header. -/
def Server.Matches (s : Server) (srcAddr : NetAddr) (hdr : Header) (i : ℕ) : Prop :=
  (s.table.slot i).active = true ∧ (s.table.slot i).addr.equal srcAddr = true ∧
    (s.table.slot i).sessionId = hdr.sessionId

/-- A header that a client in this state does not look at. -/
def Client.Ignores (c : Client) (workerState : ConnState) (hdr : Header) : Prop :=
  (hdr.packetType = PktType.reject.code ∧ workerState ≠ .connecting) ∨
    (hdr.packetType = PktType.connectResp.code ∧
      (workerState ≠ .connecting ∨ hdr.sessionId = 0)) ∨
    (hdr.packetType ≠ PktType.reject.code ∧ hdr.packetType ≠ PktType.connectResp.code ∧
      (workerState ≠ .connected ∨ hdr.sessionId ≠ c.sessionId))

section Server

variable {s : Server} {srcAddr : NetAddr} {pkt : Packet} {nowNs stackAddr : UInt64}
  {callocSend callocRecv sent : Bool}

theorem Server.matches_of_findByAddr {i : ℕ} (hfind : s.table.findByAddr srcAddr = some i)
    (hid : (s.table.slot i).sessionId = pkt.hdr.sessionId) : s.Matches srcAddr pkt.hdr i :=
  ⟨(SessionTable.findByAddr_some hfind).1, (SessionTable.findByAddr_some hfind).2, hid⟩

/-- A packet of no session. -/
theorem Server.handle_of_unmatched (htype : pkt.hdr.packetType ≠ PktType.connectReq.code)
    (hnone : ∀ i, ¬ s.Matches srcAddr pkt.hdr i) :
    (s.handle srcAddr pkt nowNs stackAddr callocSend callocRecv sent).1 = s := by
  unfold handle
  rw [if_neg htype]
  cases hfind : s.table.findByAddr srcAddr with
  | none => rfl
  | some i =>
    dsimp only
    rw [if_pos fun hid => hnone i (matches_of_findByAddr hfind hid)]

/-- A packet of a session: the session it belongs to is the only one that changes. -/
theorem Server.handle_of_matched (htype : pkt.hdr.packetType ≠ PktType.connectReq.code) {i : ℕ}
    (hi : s.Matches srcAddr pkt.hdr i) :
    ∃ k, s.Matches srcAddr pkt.hdr k ∧
      (s.handle srcAddr pkt nowNs stackAddr callocSend callocRecv sent).1.sendQueue =
        s.sendQueue ∧
      (s.handle srcAddr pkt nowNs stackAddr callocSend callocRecv sent).1.pendingItem =
        s.pendingItem ∧
      ∀ j, j ≠ k → (s.handle srcAddr pkt nowNs stackAddr callocSend callocRecv sent).1.table.slot j
        = s.table.slot j := by
  have hstep := s.moves_handle srcAddr pkt nowNs stackAddr callocSend callocRecv sent
  generalize s.handle srcAddr pkt nowNs stackAddr callocSend callocRecv sent = r at hstep ⊢
  obtain ⟨s', out⟩ := r
  cases hstep with
  | idle | noSession => exact ⟨i, hi, rfl, rfl, fun _ _ => rfl⟩
  | accept _ _ _ _ _ _ _ k hreq => exact absurd hreq htype
  | reject _ _ _ _ _ _ _ table hreq => exact absurd hreq htype
  | enroll _ _ _ _ _ _ _ slotIdx session table hreq => exact absurd hreq htype
  | connectAck _ _ _ _ _ _ _ k hfind hid =>
    exact ⟨k, matches_of_findByAddr hfind hid, rfl, rfl, fun j hj =>
      s.table.slot_setSlot_of_ne hj _⟩
  | disconnect _ _ _ _ _ _ _ k hfind hid =>
    exact ⟨k, matches_of_findByAddr hfind hid, rfl, rfl, fun j hj =>
      (SessionTable.slot_free_of_ne _ hj).trans (s.table.slot_setSlot_of_ne hj _)⟩
  | process _ _ _ _ _ _ _ k hfind hid =>
    exact ⟨k, matches_of_findByAddr hfind hid, rfl, rfl, fun j hj =>
      s.table.slot_setSlot_of_ne hj _⟩

/-- A CONNECT_REQ. -/
theorem Server.handle_of_connectReq (htype : pkt.hdr.packetType = PktType.connectReq.code) :
    (s.handle srcAddr pkt nowNs stackAddr callocSend callocRecv sent).1.sendQueue = s.sendQueue ∧
      (s.handle srcAddr pkt nowNs stackAddr callocSend callocRecv sent).1.recvQueue =
        s.recvQueue ∧
      ∀ j : ℕ,
        (s.handle srcAddr pkt nowNs stackAddr callocSend callocRecv sent).1.table.slot j ≠
          s.table.slot j →
        s.table.findByAddr srcAddr = some j ∨
          (s.table.findByAddr srcAddr = none ∧ s.table.chooseSlot.1 = j) := by
  have hstep := s.moves_handle srcAddr pkt nowNs stackAddr callocSend callocRecv sent
  generalize s.handle srcAddr pkt nowNs stackAddr callocSend callocRecv sent = r at hstep ⊢
  obtain ⟨s', out⟩ := r
  have hcodes : PktType.connectReq.code ≠ PktType.connectAck.code ∧
      PktType.connectReq.code ≠ PktType.disconnect.code := by decide
  cases hstep with
  | idle => exact ⟨rfl, rfl, fun j hj => absurd rfl hj⟩
  | accept _ _ _ _ _ _ _ k _ hfind =>
    refine ⟨rfl, rfl, fun j hj => Or.inl ?_⟩
    by_cases hjk : j = k
    · rw [hjk]; exact hfind
    · exact absurd (s.table.slot_setSlot_of_ne hjk _) hj
  | reject _ _ _ _ _ _ _ table _ hfind halloc =>
    exact ⟨rfl, rfl, fun j hj => absurd (SessionTable.allocate_none halloc j) hj⟩
  | enroll _ _ _ _ _ _ _ slotIdx session table _ hfind halloc =>
    obtain ⟨hidx, hother⟩ := SessionTable.allocate_some halloc
    refine ⟨rfl, rfl, fun j hj => Or.inr ⟨hfind, ?_⟩⟩
    by_contra hne
    rw [← hidx] at hne
    exact hj ((SessionTable.slot_setSessionAt_of_ne _ hne _).trans (hother j hne))
  | noSession _ _ _ _ _ _ _ hne => exact absurd htype hne
  | connectAck _ _ _ _ _ _ _ k _ _ hack => exact absurd (htype.symm.trans hack) hcodes.1
  | disconnect _ _ _ _ _ _ _ k _ _ hdis => exact absurd (htype.symm.trans hdis) hcodes.2
  | process _ _ _ _ _ _ _ k _ _ hne => exact absurd htype hne.1

end Server

/-- What the client's tests turn away is what it ignores. -/
theorem Client.admits_of_ignores {c : Client} {workerState : ConnState} {hdr : Header}
    (h : c.Ignores workerState hdr) : c.admits workerState hdr = false := by
  unfold admits
  rcases h with ⟨h1, h2⟩ | ⟨h1, h2⟩ | ⟨h1, h2, h3⟩
  · rw [if_pos h1]
    exact decide_eq_false h2
  · have hne : hdr.packetType ≠ PktType.reject.code := by rw [h1]; decide
    rw [if_neg hne, if_pos h1]
    rcases h2 with h2 | h2 <;> simp [h2]
  · rw [if_neg h1, if_neg h2]
    rcases h3 with h3 | h3 <;> simp [h3]

/-- **Datagram isolation**, at the server and at the client, for every state, every string of bytes
and every source address. -/
theorem datagram_isolation (host : Endian) (srcAddr : NetAddr) (datagram : List UInt8)
    (nowNs stackAddr : UInt64) (callocSend callocRecv sent : Bool) :
    (∀ s s' : Server, (s.onDatagram host srcAddr datagram nowNs stackAddr callocSend callocRecv
        sent).1 = s' →
      (∀ e, decodeHeader host (datagram.take inBufSize) = .error e → s' = s) ∧
      ∀ hdr, decodeHeader host (datagram.take inBufSize) = .ok hdr →
        (hdr.packetType ≠ PktType.connectReq.code → (∀ i, ¬ s.Matches srcAddr hdr i) → s' = s) ∧
        (hdr.packetType ≠ PktType.connectReq.code → ∀ i, s.Matches srcAddr hdr i →
          ∃ k, s.Matches srcAddr hdr k ∧ s'.sendQueue = s.sendQueue ∧
            s'.pendingItem = s.pendingItem ∧
            ∀ j, j ≠ k → s'.table.slot j = s.table.slot j) ∧
        (hdr.packetType = PktType.connectReq.code →
          s'.sendQueue = s.sendQueue ∧ s'.recvQueue = s.recvQueue ∧
          ∀ j : ℕ, s'.table.slot j ≠ s.table.slot j →
            s.table.findByAddr srcAddr = some j ∨
              (s.table.findByAddr srcAddr = none ∧ s.table.chooseSlot.1 = j))) ∧
      ∀ (c : Client) (workerState : ConnState),
        (srcAddr.equal c.config.serverAddr = false ∨
          (∃ e, decodeHeader host (datagram.take inBufSize) = .error e) ∨
          ∃ hdr, decodeHeader host (datagram.take inBufSize) = .ok hdr ∧
            c.Ignores workerState hdr) →
        c.onDatagram host workerState srcAddr datagram nowNs sent = (c, workerState, []) := by
  constructor
  · rintro s s' rfl
    refine ⟨fun e he => ?_, fun hdr hhdr => ?_⟩
    · simp only [Server.onDatagram, he]
    · simp only [Server.onDatagram, hhdr]
      exact ⟨fun htype hnone => Server.handle_of_unmatched htype hnone,
        fun htype i hi => @Server.handle_of_matched s srcAddr ⟨hdr, _⟩ _ _ _ _ _ htype i hi,
        fun htype => Server.handle_of_connectReq htype⟩
  · intro c workerState h
    cases hdec : decodeHeader host (datagram.take inBufSize) with
    | error e => exact Client.onDatagram_of_error hdec c workerState srcAddr nowNs sent
    | ok hdr =>
      rw [Client.onDatagram_of_ok hdec]
      rcases h with hsrc | ⟨e, he⟩ | ⟨hdr', hhdr, hign⟩
      · simp [Client.onPacket, hsrc]
      · exact absurd (hdec.symm.trans he) (by simp)
      · obtain rfl := Except.ok.inj (hdec.symm.trans hhdr)
        have hadm := Client.admits_of_ignores hign
        simp only [Client.onPacket, Client.handle, hadm, Bool.not_false, if_true, ite_self]

/-- The bytes of the heartbeat of session 1. -/
def heartbeatDatagram : List UInt8 :=
  encodeHeader .little (Server.barePacket .heartbeat 1 0).hdr

/-- Two clients connected from two addresses. A heartbeat of the first leaves the second session and
the send queue alone, and the same bytes leave a client with another server alone. -/
theorem datagram_isolation_of_two :
    ∃ (s : Server) (c : Client),
      (Server.create (Server.tableConfig 2) CreateAllocs.allOk).map (·.run (Server.connects 2)) =
        some s ∧
      Client.create Client.smallConfig CreateAllocs.allOk = some c ∧
      s.Matches (.inet 0 0) (Server.barePacket .heartbeat 1 0).hdr 0 ∧
      (s.onDatagram .little (.inet 0 0) heartbeatDatagram 5 0 true true true).1.table.slot 1 =
        s.table.slot 1 ∧
      (s.onDatagram .little (.inet 0 0) heartbeatDatagram 5 0 true true true).1.sendQueue =
        s.sendQueue ∧
      c.onDatagram .little .connecting (.inet 0 0) heartbeatDatagram 5 true =
        (c, .connecting, []) := by
  have hsome : ((Server.create (Server.tableConfig 2) CreateAllocs.allOk).map
      (·.run (Server.connects 2))).isSome = true := by decide +kernel
  have hval : ((Server.create (Server.tableConfig 2) CreateAllocs.allOk).map
      (·.run (Server.connects 2))).map (fun s => ((s.table.slot 0).active, (s.table.slot 0).addr,
        (s.table.slot 0).sessionId, (s.table.slot 1).addr)) =
      some (true, .inet 0 0, 1, .inet 0 1) := by decide +kernel
  have hclient : (Client.create Client.smallConfig CreateAllocs.allOk).isSome = true := by
    decide +kernel
  have haddr : (Client.create Client.smallConfig CreateAllocs.allOk).map (·.config.serverAddr) =
      some (.inet 9000 1) := by decide +kernel
  obtain ⟨s, hs⟩ := Option.isSome_iff_exists.1 hsome
  obtain ⟨c, hc⟩ := Option.isSome_iff_exists.1 hclient
  rw [hs, Option.map_some, Option.some.injEq, Prod.mk.injEq, Prod.mk.injEq, Prod.mk.injEq] at hval
  rw [hc, Option.map_some, Option.some.injEq] at haddr
  obtain ⟨hactive, haddr0, hid, haddr1⟩ := hval
  have hdec : decodeHeader .little (heartbeatDatagram.take inBufSize) =
      .ok (Server.barePacket .heartbeat 1 0).hdr := by decide +kernel
  have hmatch : s.Matches (.inet 0 0) (Server.barePacket .heartbeat 1 0).hdr 0 :=
    ⟨hactive, by rw [haddr0]; decide, by rw [hid]; decide⟩
  obtain ⟨hserver, hother⟩ := datagram_isolation .little (.inet 0 0) heartbeatDatagram 5 0 true true
    true
  obtain ⟨k, hk, hqueue, -, hslot⟩ := ((hserver s _ rfl).2 _ hdec).2.1 (by decide) 0 hmatch
  have hk1 : (1 : ℕ) ≠ k := by
    rintro rfl
    have h := hk.2.1
    rw [haddr1] at h
    exact absurd h (by decide)
  exact ⟨s, c, hs, hc, hmatch, hslot 1 hk1, hqueue,
    hother c .connecting (Or.inl (by rw [haddr]; decide))⟩

end Rel4u
