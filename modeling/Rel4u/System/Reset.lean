import Rel4u.System.Handshake

/-!
# Messages across a RESET

The server answers a packet of a session it does not have with RESET, and the client then puts the
unacknowledged messages of its send window back into its send queue and connects again. A message
counts as acknowledged once the server's receive window has accepted it. An ordered message that
waits there for an earlier one has been accepted, and acknowledged selectively, but not handed on,
and the window it waits in has gone with the session: `reset_loses_buffered` is such a run.

`reset_keeps_messages` says that nothing else is lost, apart from what a client loses that has come
back to a session it had used (`rejoined_out_of_step`): its messages may be acknowledged by packets
about others. If the client is in its session for the first time, and no acknowledged ordered
message is beyond what the server's window expects, then every message is in the send queue
or has been handed to the server's receive queue.
-/

namespace Rel4u

open Serial (wrap)

/-! ### One direction -/

/-- No acknowledged ordered message of the send window is beyond what the receive window expects. -/
def NoneBuffered (sw : SendWindow) (rw : RecvWindow) : Prop :=
  ∀ slot ∈ sw.slots, slot.inUse = true → slot.acked = true →
    slot.deliveryMode = DeliveryMode.reliableOrdered.code → seqLt slot.seqNum rw.expectedSeq = true

instance (sw : SendWindow) (rw : RecvWindow) : Decidable (NoneBuffered sw rw) :=
  inferInstanceAs (Decidable (∀ slot ∈ sw.slots, _))

section Accounted

variable {log : List Message} {sw : SendWindow} {rw : RecvWindow} {out : List RecvSlot} {h e : ℕ}

/-- The unacknowledged messages, by their place in the log. -/
def unackedPlaces (sw : SendWindow) (h n : ℕ) : List ℕ :=
  (List.range' h (n - h)).filter fun k => !(sw.cell (1 + k)).acked

theorem mem_unackedPlaces {n k : ℕ} :
    k ∈ unackedPlaces sw h n ↔ (h ≤ k ∧ k < n) ∧ (sw.cell (1 + k)).acked = false := by
  rw [unackedPlaces, List.mem_filter, List.mem_range'_1, Bool.not_eq_true']
  refine and_congr_left fun _ => ?_
  omega

/-- What a reconnect takes out of the window. -/
theorem InStep.unackedItems_eq (hs : InStep 1 log sw rw h e) :
    sw.unackedItems =
      (unackedPlaces sw (h - 1) log.length).map fun k => (log.getD k default).item := by
  have hb := hs.base_le
  have hrange : List.range' h (1 + log.length - h) =
      (List.range' (h - 1) (log.length - (h - 1))).map (1 + ·) := by
    rw [List.map_add_range', show 1 + (h - 1) = h by omega,
      show log.length - (h - 1) = 1 + log.length - h by omega]
  rw [hs.send.unackedItems_eq, SendWindow.rangeItems, unackedPlaces, hrange, List.map_map,
    List.filter_map, List.map_map]
  refine List.map_congr_left fun k hk => ?_
  obtain ⟨hk, -⟩ := List.mem_filter.1 hk
  rw [List.mem_range'_1] at hk
  have hcontent := hs.content (1 + k) (by omega) (by omega)
  rw [Nat.add_sub_cancel_left] at hcontent
  rw [List.getD_eq_getElem?_getD, hcontent]
  rfl

/-- **Every message is unacknowledged or has been handed out**, unless it is acknowledged and waits
for an earlier one. -/
theorem Dir.accounted (hd : Dir log sw rw out h e) (hsmall : log.length < 2 ^ 30)
    (hnone : NoneBuffered sw rw) :
    ∃ ps : List ℕ, ps.Pairwise (· < ·) ∧ (∀ k ∈ ps, k < log.length) ∧
      sw.unackedItems = ps.map (fun k => (log.getD k default).item) ∧
      ∀ k m, log[k]? = some m →
        k ∈ ps ∨ ∃ s ∈ out, s.seqNum = wrap (1 + k) ∧ s.message = m := by
  obtain ⟨sv, rv, hs, hh, rfl | ⟨hidle, -, rfl⟩, hr⟩ := hd
  · have hb := hs.base_le
    have hhe := hs.head_le
    have hle := hs.le_next
    refine ⟨unackedPlaces sw (h - 1) log.length, (List.pairwise_lt_range' ..).filter _,
      fun k hk => ?_, hs.unackedItems_eq, fun k m hk => ?_⟩
    · exact (mem_unackedPlaces.1 hk).1.2
    · have hlt : k < log.length := (List.getElem?_eq_some_iff.1 hk).1
      by_cases hbefore : 1 + k < e
      · exact Or.inr (hh k m hk (Or.inl hbefore))
      cases hacked : (sw.cell (1 + k)).acked with
      | false => exact Or.inl (mem_unackedPlaces.2 ⟨⟨by omega, hlt⟩, hacked⟩)
      | true =>
        right
        have hacc := hs.acked (1 + k) (by omega) (by omega) hacked
        have hcontent := hs.content (1 + k) (by omega) (by omega)
        rw [Nat.add_sub_cancel_left, hk, Option.some.injEq] at hcontent
        rcases hs.reliable m (List.mem_of_getElem? hk) with hord | hunord
        · -- it waits in the receive window, which the condition excludes
          exfalso
          have hlt' := hnone (sw.cell (1 + k)) (Ring.cell_mem hs.send.len_pos _)
            (hs.send.inUse (1 + k) (by omega) (by omega)) hacked (by rw [← hord, hcontent]; rfl)
          rw [hs.send.seqNum (1 + k) (by omega) (by omega)] at hlt'
          rcases hr with rfl | ⟨-, -, rfl, hempty⟩
          · rw [hs.recv.expected, seqLt, decide_eq_true_eq] at hlt'
            have hdiff : seqDiff (wrap (1 + k)) (wrap e) = ((1 + k : ℕ) : ℤ) - e :=
              Serial.diff_wrap (by omega) (by omega)
            omega
          · exact hempty k (by rwa [Nat.add_comm] at hacc)
        · exact hh k m hk (Or.inr ⟨hacc, decide_eq_true hunord⟩)
  · refine ⟨[], List.Pairwise.nil, by simp, ?_, by simp⟩
    rw [hidle.unackedItems_eq]
    rfl

end Accounted

namespace System

/-! ### The reconnect step -/

/-- The packet is a RESET that the client acts on. -/
def TakesReset (σ : System) (srcAddr : NetAddr) (pkt : Packet) : Prop :=
  σ.client.pc = .poll .connected ∧ srcAddr.equal σ.client.client.config.serverAddr = true ∧
    pkt.hdr.packetType = PktType.reset.code ∧ pkt.hdr.sessionId = σ.client.client.sessionId

instance (σ : System) (srcAddr : NetAddr) (pkt : Packet) : Decidable (σ.TakesReset srcAddr pkt) :=
  inferInstanceAs (Decidable (_ ∧ _ ∧ _ ∧ _))

/-- The client is in its session for the first time, or has not used it before, the windows of the
session have been allocated, and none of its messages waits at the server for an earlier one. -/
def Recoverable (σ : System) : Prop :=
  σ.client.client.sessionId ∉ σ.spoiled ∧
    NoneBuffered σ.client.client.sendWin (σ.ends σ.client.client.sessionId).2

instance (σ : System) : Decidable σ.Recoverable := inferInstanceAs (Decidable (_ ∧ _))

theorem sound_run {config : ClientConfig} {a : CreateAllocs} {client : Client}
    (h : Client.create config a = some client) {addr : NetAddr} {server : Server}
    {es : List SystemEvent} {σ : System} (hrun : (start addr client server).run es = some σ) :
    σ.client.client.Sound := by
  refine run_induction (P := fun σ => σ.client.client.Sound) (fun {σ e σ'} hσ hexec => ?_)
    (Client.create_sound h) hrun
  obtain ⟨-, -, -, ⟨ce, p, out, rfl, hce, rfl⟩ | ⟨se, rfl, rfl⟩⟩ := exec_cases hexec
  · exact Client.Sound.moves hσ (ClientProc.moves_of_exec hce)
  · exact hσ

/-- A RESET puts the unacknowledged messages at the front of the send queue. -/
theorem contents_of_reset {σ σ' : System} (hsound : σ.client.client.Sound) {srcAddr : NetAddr}
    {pkt : Packet} {nowNs : UInt64} {sent : Bool}
    (hexec : σ.exec (.client (.packet srcAddr pkt nowNs sent)) = some σ')
    (hreset : σ.TakesReset srcAddr pkt)
    (hauto : σ.client.client.config.disableAutoReconnect = false)
    (hdropped : σ'.client.client.sendQueue.droppedCount = 0) :
    σ'.client.client.sendQueue.contents =
      σ.client.client.sendWin.unackedItems ++ σ.client.client.sendQueue.contents := by
  obtain ⟨hpc, haddr, htype, hid⟩ := hreset
  have hqueue : σ'.client.client.sendQueue =
      (σ.client.client.sendWin.reclaimUnacked σ.client.client.sendQueue).1 := by
    obtain ⟨-, -, -, ⟨ce, p, out, heq, hce, rfl⟩ | ⟨se, heq, -⟩⟩ := exec_cases hexec
    · obtain rfl := SystemEvent.client.inj heq
      simp only [ClientProc.exec, hpc] at hce
      obtain ⟨rfl, -⟩ := Prod.mk.inj (Option.some.inj hce)
      have hcodes : PktType.reset.code ≠ PktType.reject.code ∧
          PktType.reset.code ≠ PktType.connectResp.code := by decide
      simp [afterClient, Client.onPacket, haddr, Client.handle, Client.admits, htype, hid, hcodes,
        Client.triggerReconnect, hauto]
    · exact SystemEvent.noConfusion heq
  obtain ⟨l, hl, -⟩ := hsound.queue
  rw [hqueue, hsound.window.reclaimUnacked_eq] at hdropped ⊢
  obtain ⟨-, -, hrep⟩ := SendWindow.foldr_reclaimStep_counts hl
    (fun x hx => hsound.window.mem_unackedItems hx) 0
  rw [(hrep (hdropped.le.trans (Nat.zero_le _))).contents_eq, hl.contents_eq]

/-- **A RESET loses no reliable message, under the condition.** In every run from a created client
and a created server, when the client acts on a RESET in a recoverable state, with automatic
reconnect and neither its send queue nor the server's receive queue having dropped anything, each
message that has entered its send window is put at the front of the send queue, in order, or has
been handed to the server's receive queue. -/
theorem reset_keeps_messages {clientConfig : ClientConfig} {clientAllocs : CreateAllocs}
    {client : Client} (hclient : Client.create clientConfig clientAllocs = some client)
    {serverConfig : ServerConfig} {serverAllocs : CreateAllocs} {server : Server}
    (hserver : Server.create serverConfig serverAllocs = some server) (addr : NetAddr)
    {es : List SystemEvent} {σ : System} (hrun : (start addr client server).run es = some σ)
    {srcAddr : NetAddr} {pkt : Packet} {nowNs : UInt64} {sent : Bool} {σ' : System}
    (hexec : σ.exec (.client (.packet srcAddr pkt nowNs sent)) = some σ')
    (hreset : σ.TakesReset srcAddr pkt)
    (hauto : σ.client.client.config.disableAutoReconnect = false)
    (hsendQueue : σ'.client.client.sendQueue.droppedCount = 0)
    (hrecvQueue : σ.server.recvQueue.droppedCount = 0) (hrecoverable : σ.Recoverable) :
    ∃ ps : List ℕ, ps.Pairwise (· < ·) ∧ (∀ k ∈ ps, k < σ.sent.length) ∧
      σ'.client.client.sendQueue.contents =
        ps.map (fun k => (σ.sent.getD k default).item) ++ σ.client.client.sendQueue.contents ∧
      ∀ k m, σ.sent[k]? = some m → k ∈ ps ∨
        ∃ slot, (σ.client.client.sessionId, slot) ∈ σ.handed ∧ slot.seqNum = wrap (1 + k) ∧
          slot.message = m := by
  obtain ⟨c, hstart⟩ := sync_start hclient hserver addr
  have hσ := hstart.run hrun
  have hcontents := contents_of_reset (sound_run hclient hrun) hexec hreset hauto hsendQueue
  have hne : σ.client.client.sessionId ≠ 0 :=
    (hσ.client.ready.copy .connected (by rw [hreset.1]; rfl)).connected rfl
  obtain ⟨A, B, h⟩ := hσ.linked _ (hσ.client.joined hne) hrecoverable.1 (Or.inl rfl)
  obtain ⟨got, rfl⟩ := h.seat.1 rfl
  obtain ⟨hA, eA, hB, eB, hlink⟩ := h.link
  have hnone := hrecoverable.2
  rw [← h.ends] at hnone
  obtain ⟨ps, hps, hlt, hitems, hall⟩ := hlink.there.accounted hlink.short hnone
  refine ⟨ps, hps, hlt, ?_, fun k m hk => ?_⟩
  · rw [hcontents]
    exact congrArg (· ++ _) hitems
  · refine (hall k m hk).imp_right ?_
    rintro ⟨slot, hslot, hseq, hmessage⟩
    have hfits := hσ.client.fits m (List.mem_of_getElem? hk)
    rw [← hmessage] at hfits
    exact ⟨slot, h.handed hrecvQueue slot hslot hfits, hseq, hmessage⟩

/-! ### Two runs -/

/-- The first message, on its way. -/
def firstData : Packet := mkPacket .data 3 7 1 (0, 0) [5] 1

/-- The second message. -/
def secondData : Packet := mkPacket .data 3 7 2 (0, 0) [6] 1

/-- Connect and send two messages, of which one arrives and is acknowledged. The application kicks
the client out, and the other message, sent again, finds no session. -/
def forgets (arrived missing : Packet) (ack : UInt32 × UInt32) : List SystemEvent :=
  connects ++
    [.client (.send 3 [5] 1), .client (.send 3 [6] 1), .client .endPoll,
      .client (.drain 200000002 true), .client (.drain 200000003 true), .client .endDrain,
      .client (.timers 200000004 true), .client (.turn 200000005 true),
      .server (.packet here arrived 8 0 true true true), .server (.ack 0 true),
      .client (.packet there (mkPacket .ack 0 7 0 ack [] 0) 200000006 true),
      .server (.disconnectClient 0), .client .endPoll, .client .endDrain,
      .client (.timers 2000000000 true), .client (.turn 2000000001 true),
      .server (.packet here missing 9 0 true true true)]

/-- The answer to a packet of session 7 with this number. -/
def resetTo (seq : UInt32) : Packet := Server.barePacket .reset 7 seq

/-- The client connects again, under session id 9. -/
def reconnects : List SystemEvent :=
  [.client .endPoll, .client .endDrain, .client (.timers 2000000003 true),
    .client (.turn 2300000000 true),
    .server (.packet here (mkPacket .connectReq 0 0 0 (0, 0) [] 0) 9 0 true true true),
    .client (.packet there (mkPacket .connectResp 0 9 0 (0, 0) [] 0) 2300000001 true)]

/-- The first message has arrived in its turn: it has been handed on, and the second is in the send
queue after the RESET. -/
theorem reset_keeps_messages_of_two :
    ∃ σ σ', (twoEnds.bind fun τ => τ.run (forgets firstData secondData (1, 0))) = some σ ∧
      σ.exec (.client (.packet there (resetTo 2) 2000000002 true)) = some σ' ∧
      σ.sent.length = 2 ∧ σ'.client.client.sendQueue.contents = [⟨0, 3, 1, [6]⟩] ∧
      ∃ ps : List ℕ, ps.Pairwise (· < ·) ∧ (∀ k ∈ ps, k < σ.sent.length) ∧
        σ'.client.client.sendQueue.contents =
          ps.map (fun k => (σ.sent.getD k default).item) ++ σ.client.client.sendQueue.contents ∧
        ∀ k m, σ.sent[k]? = some m → k ∈ ps ∨
          ∃ slot, (σ.client.client.sessionId, slot) ∈ σ.handed ∧ slot.seqNum = wrap (1 + k) ∧
            slot.message = m := by
  have hval : (twoEnds.bind fun τ => (τ.run (forgets firstData secondData (1, 0))).bind fun σ =>
      (σ.exec (.client (.packet there (resetTo 2) 2000000002 true))).map fun σ' =>
        decide (σ.TakesReset there (resetTo 2) ∧
          σ.client.client.config.disableAutoReconnect = false ∧
          σ'.client.client.sendQueue.droppedCount = 0 ∧ σ.server.recvQueue.droppedCount = 0 ∧
          σ.Recoverable ∧ σ.sent.length = 2 ∧
          σ'.client.client.sendQueue.contents = [⟨0, 3, 1, [6]⟩])) = some true := by
    decide +kernel
  obtain ⟨τ, hτ, hτval⟩ := Option.bind_eq_some_iff.1 hval
  obtain ⟨client, server, hclient, hserver, rfl⟩ := twoEnds_some hτ
  obtain ⟨σ, hrun, hσval⟩ := Option.bind_eq_some_iff.1 hτval
  obtain ⟨σ', hexec, hσval'⟩ := Option.map_eq_some_iff.1 hσval
  obtain ⟨hreset, hauto, hsend, hrecv, hrecoverable, hlen, hcontents⟩ := of_decide_eq_true hσval'
  refine ⟨σ, σ', by rw [hτ, Option.bind_some, hrun], hexec, hlen, hcontents, ?_⟩
  exact reset_keeps_messages hclient hserver here hrun hexec hreset hauto hsend hrecv hrecoverable

/-- **A message that waits for an earlier one is lost.** The second message has arrived and has been
acknowledged selectively, but waits for the first. After the RESET it is not in the send queue, and
it has not been handed on; the client then connects under a new session with fresh windows. -/
theorem reset_loses_buffered :
    ∃ σ σ' τ, (twoEnds.bind fun τ => τ.run (forgets secondData firstData (0, 2))) = some σ ∧
      σ.exec (.client (.packet there (resetTo 1) 2000000002 true)) = some σ' ∧
      σ.TakesReset there (resetTo 1) ∧ σ.client.client.config.disableAutoReconnect = false ∧
      σ'.client.client.sendQueue.droppedCount = 0 ∧ σ'.server.recvQueue.droppedCount = 0 ∧
      (∃ m ∈ σ.sent, (∀ y ∈ σ'.handed, y.2.message ≠ m) ∧
        m.item ∉ σ'.client.client.sendQueue.contents) ∧
      σ'.run reconnects = some τ ∧ τ.client.client.state = .connected ∧
      ∃ x ∈ τ.joinedSessions, Untouched x.sendWin x.recvWin := by
  have hval : ((twoEnds.bind fun τ => τ.run (forgets secondData firstData (0, 2))).bind fun σ =>
      (σ.exec (.client (.packet there (resetTo 1) 2000000002 true))).bind fun σ' =>
        (σ'.run reconnects).map fun τ =>
          decide (σ.TakesReset there (resetTo 1) ∧
            σ.client.client.config.disableAutoReconnect = false ∧
            σ'.client.client.sendQueue.droppedCount = 0 ∧
            σ'.server.recvQueue.droppedCount = 0 ∧
            (∃ m ∈ σ.sent, (∀ y ∈ σ'.handed, y.2.message ≠ m) ∧
              m.item ∉ σ'.client.client.sendQueue.contents) ∧
            τ.client.client.state = .connected ∧
            ∃ x ∈ τ.joinedSessions, Untouched x.sendWin x.recvWin)) = some true := by
    decide +kernel
  obtain ⟨σ, hrun, hval⟩ := Option.bind_eq_some_iff.1 hval
  obtain ⟨σ', hexec, hval⟩ := Option.bind_eq_some_iff.1 hval
  obtain ⟨τ, hrest, hval⟩ := Option.map_eq_some_iff.1 hval
  obtain ⟨hreset, hauto, hsend, hrecv, hlost, hstate, hfresh⟩ := of_decide_eq_true hval
  exact ⟨σ, σ', τ, hrun, hexec, hreset, hauto, hsend, hrecv, hlost, hrest, hstate, hfresh⟩

end System

end Rel4u
