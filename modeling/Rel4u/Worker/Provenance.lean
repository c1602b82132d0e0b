import Rel4u.Server.Address
import Rel4u.System.ClientEffect
import Rel4u.Worker.Drain

/-!
# What is transmitted was given to `send`

Between the call that accepts a message and the packets that carry it, the message is an item of
`sendQueue`, at the server perhaps `pendingItem`, a slot of a send window, and at the client, after
a reconnect, an item again. `Carries mtu P` says that all these copies satisfy `P`, an arbitrary
property of messages. The events keep it as soon as `P` holds of what `send` is given, and then it
holds of every DATA packet, sent for the first time or again.
-/

namespace Rel4u

/-- The packet is one that `client_send_packet` or `server_send_packet` builds for DATA, from a
length of 16 bits. -/
def Packet.Built (pkt : Packet) : Prop :=
  ∃ (mode : UInt8) (id seq : UInt32) (ack : UInt32 × UInt32) (data : List UInt8) (len : UInt16),
    pkt = mkPacket .data mode id seq ack data len.toNat

/-- The DATA packets among those sent carry messages that satisfy `P`. -/
def Emits (P : Message → Prop) (out : List Packet) : Prop :=
  ∀ pkt ∈ out, pkt.hdr.packetType = PktType.data.code → pkt.Built ∧ P pkt.message

section Emits

variable {P : Message → Prop}

theorem emits_nil : Emits P [] := fun _ hpkt => absurd hpkt List.not_mem_nil

theorem Emits.append {out₁ out₂ : List Packet} (h₁ : Emits P out₁) (h₂ : Emits P out₂) :
    Emits P (out₁ ++ out₂) := by
  intro pkt hpkt hdata
  rcases List.mem_append.1 hpkt with h | h
  · exact h₁ pkt h hdata
  · exact h₂ pkt h hdata

/-- Packets of the other types do not matter. -/
theorem emits_other {type : PktType} (htype : type ≠ .data) (mode : UInt8) (id seq : UInt32)
    (ack : UInt32 × UInt32) (payload : List UInt8) (len : ℕ) :
    Emits P [mkPacket type mode id seq ack payload len] := by
  intro pkt hpkt hdata
  rw [List.mem_singleton.1 hpkt] at hdata
  exact absurd hdata (code_ne_data type htype)

/-- The packet made of an item carries the item's message. -/
theorem message_mkPacket (x : MpmcItem) (id seq : UInt32) (ack : UInt32 × UInt32) :
    (mkPacket .data x.mode id seq ack x.data x.len.toNat).message = x.message := by
  simp [mkPacket, Packet.message, MpmcItem.message]

theorem emits_item {x : MpmcItem} (hx : P x.message) (id seq : UInt32)
    (ack : UInt32 × UInt32) :
    Emits P [mkPacket .data x.mode id seq ack x.data x.len.toNat] := by
  intro pkt hpkt _
  rw [List.mem_singleton.1 hpkt]
  refine ⟨⟨x.mode, id, seq, ack, x.data, x.len, rfl⟩, ?_⟩
  rw [message_mkPacket]
  exact hx

theorem emits_retransmit {w : SendWindow} (hw : ∀ y ∈ w.letters, P y.2) (rtt : Rtt)
    (nowNs : UInt64) (id : UInt32) (ack : UInt32 × UInt32) :
    Emits P (retransmit w rtt nowNs id ack).2.2 := by
  intro pkt hpkt _
  refine ⟨?_, hw _ ((w.letters_retransmit rtt nowNs id ack).2 pkt hpkt)⟩
  unfold retransmit at hpkt
  dsimp only at hpkt
  split_ifs at hpkt
  · obtain ⟨i, -, rfl⟩ := List.mem_map.1 hpkt
    exact ⟨_, _, _, _, _, _, rfl⟩
  · exact absurd hpkt List.not_mem_nil

end Emits

/-! ### Queues and windows -/

section Stores

variable {P : Message → Prop}

theorem MpmcQueue.message_stored (q : MpmcQueue) (x : MpmcItem) :
    (q.stored x).message = x.message := by
  unfold MpmcQueue.stored
  split
  · rfl
  · simp [MpmcItem.trim, MpmcItem.message, List.take_take]

/-- A push at the back brings its own message at most. -/
theorem MpmcQueue.Short.pushBack_contents {q : MpmcQueue} (hq : q.Short)
    (hP : ∀ x ∈ q.contents, P x.message) {x : MpmcItem} (hx : P x.message) :
    ∀ y ∈ (q.pushBackLocked x).2.contents, P y.message := by
  obtain ⟨l, hl, -⟩ := hq
  obtain ⟨l', hl', hmem⟩ := hl.mem_pushBack x
  rw [hl.contents_eq] at hP
  rw [hl'.contents_eq]
  intro y hy
  rcases hmem y hy with hy' | ⟨rfl, -⟩
  · exact hP y hy'
  · rw [MpmcQueue.message_stored]
    exact hx

theorem MpmcQueue.Short.pop_contents {q : MpmcQueue} (hq : q.Short)
    (hP : ∀ x ∈ q.contents, P x.message) :
    (∀ x ∈ q.popHeadLocked.2.contents, P x.message) ∧ ∀ x ∈ q.popHeadLocked.1, P x.message := by
  obtain ⟨l, hl, -⟩ := hq
  obtain ⟨h1, h2, -⟩ := hl.pop
  rw [hl.contents_eq] at hP
  rw [h2.contents_eq, h1]
  exact ⟨fun x hx => hP x (List.mem_of_mem_tail hx), fun x hx => hP x (List.mem_of_mem_head? hx)⟩

theorem lt_of_le_maxPayload {len : ℕ} {mtu : UInt16} (h : len ≤ maxPayload mtu) : len < 2 ^ 16 := by
  have hmtu := mtu.toNat_lt
  rw [maxPayload] at h
  omega

/-- The item that `send` builds carries the message it was given. -/
theorem message_ofSend (clientId : UInt32) (mode : UInt8) (data : List UInt8) {len : ℕ}
    (hlen : len < 2 ^ 16) :
    (MpmcItem.ofSend clientId mode data len).message = Message.ofPush mode data len := by
  have hnat : (UInt16.ofNat len).toNat = len := UInt16.toNat_ofNat_of_lt' hlen
  simp [MpmcItem.ofSend, MpmcItem.message, Message.ofPush, hnat]

theorem SendWindow.message_push {w w' : SendWindow} {x : MpmcItem} {nowNs : UInt64} {seq : UInt32}
    (hw : ∀ y ∈ w.letters, P y.2) (hx : P x.message)
    (hpush : w.push x.mode x.data x.len.toNat nowNs = .ok (w', seq)) :
    ∀ y ∈ w'.letters, P y.2 := by
  intro y hy
  rcases List.mem_cons.1 (SendWindow.letters_push hpush hy) with rfl | h
  · simpa [MpmcItem.message, List.take_take] using hx
  · exact hw y h

/-- What is reclaimed are messages of the window. -/
theorem SendWindow.Usable.message_unackedItems {w : SendWindow} (hw : w.Usable)
    (hP : ∀ y ∈ w.letters, P y.2) : ∀ x ∈ w.unackedItems, P x.message := by
  intro x hx
  rcases hw with ⟨h, n, hw⟩ | hw
  · rw [hw.unackedItems_eq, rangeItems] at hx
    obtain ⟨s, hs, rfl⟩ := List.mem_map.1 hx
    obtain ⟨p, hp, rfl⟩ := List.mem_map.1 (List.mem_filter.1 hs).1
    rw [List.mem_range'_1] at hp
    have huse : (w.slot (p % w.slots.length)).inUse = true := hw.inUse p hp.1 (by omega)
    have hmem := mem_letters.2 ⟨_, slot_mem_of_inUse huse, huse, rfl⟩
    have hmsg : (w.cell p).message.item.message = (w.cell p).message := by
      simp [Message.item, MpmcItem.message, SendSlot.message, List.take_take]
    rw [hmsg]
    exact hP _ hmem
  · rw [hw.unackedItems_eq] at hx
    exact absurd hx List.not_mem_nil

end Stores

/-! ### The client -/

namespace Client

/-- All copies of messages on their way out satisfy `P`. -/
structure Carries (mtu : UInt16) (P : Message → Prop) (c : Client) : Prop where
  sound : c.Sound
  mtu_eq : c.config.mtu = mtu
  queue : ∀ x ∈ c.sendQueue.contents, P x.message
  window : ∀ y ∈ c.sendWin.letters, P y.2

section Carries

variable {mtu : UInt16} {P : Message → Prop} {c : Client}

/-- Only the queue, the window and the configuration matter. -/
theorem Carries.congr (hc : c.Carries mtu P) {c' : Client} (hcfg : c'.config = c.config)
    (hq : c'.sendQueue = c.sendQueue) (hw : c'.sendWin = c.sendWin) : c'.Carries mtu P :=
  ⟨hc.sound.congr hq hw, hcfg ▸ hc.mtu_eq, hq ▸ hc.queue, hw ▸ hc.window⟩

theorem create_carries {config : ClientConfig} {a : CreateAllocs} (h : create config a = some c) :
    c.Carries config.withDefaults.mtu P := by
  have hsound := create_sound h
  obtain ⟨q, recvQueue, hq, -, -, rfl⟩ := create_some h
  refine ⟨hsound, rfl, ?_, ?_⟩
  · dsimp only
    rw [(MpmcQueue.init_rep hq).1.contents_eq]
    exact List.forall_mem_nil _
  · dsimp only
    rw [SendWindow.letters_init rfl]
    exact List.forall_mem_nil _

theorem Carries.send (hc : c.Carries mtu P) {mode : UInt8} {data : List UInt8} {len : ℕ}
    (hP : len ≤ maxPayload mtu → P (Message.ofPush mode data len)) :
    (c.send mode data len).2.Carries mtu P := by
  have hsound := hc.sound.send mode data len
  unfold Client.send at hsound ⊢
  split_ifs at hsound ⊢ with hlen hrun hstate
  · exact hc
  · exact hc
  · exact hc
  · have hle : len ≤ maxPayload mtu := hc.mtu_eq ▸ not_lt.1 hlen
    have hmsg := message_ofSend 0 mode data (lt_of_le_maxPayload hle)
    have hpush := hc.sound.queue.pushBack_contents hc.queue (hmsg.symm ▸ hP hle)
    split at hsound <;> next heq =>
      rw [MpmcQueue.tryPush] at heq
      rw [heq] at hpush
      exact ⟨hsound, hc.mtu_eq, hpush, hc.window⟩

theorem Carries.resetConnection (hc : c.Carries mtu P) : c.resetConnection.Carries mtu P :=
  ⟨hc.sound.resetConnection, hc.mtu_eq, hc.queue,
    fun y hy => hc.window y (c.sendWin.letters_reset 1 hy)⟩

theorem Carries.triggerReconnect (hc : c.Carries mtu P) (nowNs : UInt64) :
    (c.triggerReconnect nowNs).Carries mtu P := by
  have hsound := hc.sound.triggerReconnect nowNs
  have hunacked := hc.sound.window.message_unackedItems hc.window
  unfold Client.triggerReconnect at hsound ⊢
  split_ifs at hsound ⊢
  · exact hc.congr rfl rfl rfl
  · refine ⟨hsound, hc.mtu_eq, ?_, fun y hy => hc.window y (c.sendWin.letters_reset 1 hy)⟩
    intro x hx
    dsimp only at hx
    rw [hc.sound.reclaim.contents_eq] at hx
    rcases List.mem_append.1 (Deque.pushesFront_sublist.subset hx) with h | h
    · exact hunacked x h
    · exact hc.queue x h

theorem Carries.disconnectBegin (hc : c.Carries mtu P) :
    c.disconnectBegin.1.Carries mtu P ∧ Emits P c.disconnectBegin.2 := by
  unfold Client.disconnectBegin
  split_ifs
  · exact ⟨hc.congr rfl rfl rfl, emits_other (by decide) _ _ _ _ _ _⟩
  · exact ⟨hc, emits_nil⟩

theorem Carries.disconnectEnd (hc : c.Carries mtu P) : c.disconnectEnd.Carries mtu P := by
  unfold Client.disconnectEnd
  split_ifs
  · exact Carries.resetConnection (hc.congr rfl rfl rfl)
  · exact hc.congr rfl rfl rfl

theorem Carries.connectBegin (hc : c.Carries mtu P) (nowNs : UInt64) (ok : Bool) :
    (c.connectBegin nowNs ok).Carries mtu P := by
  unfold Client.connectBegin
  dsimp only
  split_ifs <;> exact hc.resetConnection.congr rfl rfl rfl

theorem Carries.handshake (hc : c.Carries mtu P) (workerState : ConnState) (last nowNs : UInt64)
    (sent : Bool) :
    (c.handshake workerState last nowNs sent).1.Carries mtu P ∧
      Emits P (c.handshake workerState last nowNs sent).2.1 := by
  unfold Client.handshake
  split_ifs
  · exact ⟨hc.congr rfl rfl rfl, emits_other (by decide) _ _ _ _ _ _⟩
  · exact ⟨hc, emits_nil⟩

theorem Carries.onSessionPacket (hc : c.Carries mtu P) (pkt : Packet) (nowNs : UInt64)
    (sent : Bool) :
    (c.onSessionPacket pkt nowNs sent).1.Carries mtu P ∧
      Emits P (c.onSessionPacket pkt nowNs sent).2 := by
  have hsound := hc.sound.onSessionPacket pkt nowNs sent
  have hw := c.sendWin.letters_onAck pkt.hdr.ackNum pkt.hdr.sackMask nowNs c.rtt
  constructor
  · unfold Client.onSessionPacket at hsound ⊢
    dsimp only at hsound ⊢
    split_ifs at hsound ⊢ <;>
      exact ⟨hsound, hc.mtu_eq, hc.queue, fun y hy => hc.window y (hw hy)⟩
  · by_cases hbeat : pkt.hdr.packetType = PktType.heartbeat.code
    · have hdata : pkt.hdr.packetType ≠ PktType.data.code := by rw [hbeat]; decide
      simp only [Client.onSessionPacket, if_pos hbeat, if_neg hdata]
      exact emits_other (by decide) _ _ _ _ _ _
    · simp only [Client.onSessionPacket, if_neg hbeat]
      split_ifs <;> exact emits_nil

theorem Carries.onPacket (hc : c.Carries mtu P) (workerState : ConnState) (srcAddr : NetAddr)
    (pkt : Packet) (nowNs : UInt64) (sent : Bool) :
    (c.onPacket workerState srcAddr pkt nowNs sent).1.Carries mtu P ∧
      Emits P (c.onPacket workerState srcAddr pkt nowNs sent).2.2 := by
  have hactive : ({ c with lastActivityNs := nowNs } : Client).Carries mtu P := hc.congr rfl rfl rfl
  have hhandles := c.handles_onPacket workerState srcAddr pkt nowNs sent
  generalize c.onPacket workerState srcAddr pkt nowNs sent = r at hhandles ⊢
  obtain ⟨c', workerState', out⟩ := r
  cases hhandles with
  | ignored => exact ⟨hc, emits_nil⟩
  | joined => exact ⟨hc.congr rfl rfl rfl, emits_other (by decide) _ _ _ _ _ _⟩
  | reset => exact ⟨hactive.triggerReconnect nowNs, emits_nil⟩
  | closed => exact ⟨hc.congr rfl rfl rfl, emits_nil⟩
  | session => exact hactive.onSessionPacket pkt nowNs sent

theorem Carries.drainStep (hc : c.Carries mtu P) (workerState : ConnState) (nowNs : UInt64)
    (sent : Bool) :
    (c.drainStep workerState nowNs sent).2.1.Carries mtu P ∧
      Emits P (c.drainStep workerState nowNs sent).2.2 := by
  have hsound := hc.sound.drainStep workerState nowNs sent
  obtain ⟨hrest, hitem⟩ := hc.sound.queue.pop_contents hc.queue
  unfold Client.drainStep at hsound ⊢
  split_ifs at hsound ⊢
  · split at hsound
    · next sendQueue heq =>
      rw [MpmcQueue.tryPop] at heq
      rw [heq] at hrest
      exact ⟨⟨hsound, hc.mtu_eq, hrest, hc.window⟩, emits_nil⟩
    · next item sendQueue heq =>
      rw [MpmcQueue.tryPop] at heq
      rw [heq] at hrest hitem
      have hx : P item.message := hitem item rfl
      dsimp only at hsound ⊢
      split at hsound
      · next sendWin seq hpush =>
        exact ⟨⟨hsound, hc.mtu_eq, hrest, SendWindow.message_push hc.window hx hpush⟩,
          emits_item hx _ _ _⟩
      · exact ⟨⟨hsound, hc.mtu_eq, hrest, hc.window⟩, emits_nil⟩
  · exact ⟨hc, emits_nil⟩

theorem Carries.timers (hc : c.Carries mtu P) (workerState : ConnState) (nowNs : UInt64)
    (sent : Bool) :
    (c.timers workerState nowNs sent).1.Carries mtu P ∧
      Emits P (c.timers workerState nowNs sent).2 := by
  have hresend : (c.retransmitStep workerState nowNs sent).1.Carries mtu P ∧
      Emits P (c.retransmitStep workerState nowNs sent).2 := by
    unfold retransmitStep
    split_ifs
    · have hletters := c.sendWin.letters_retransmit c.rtt nowNs c.sessionId c.recvWin.getAckInfo
      exact ⟨⟨⟨hc.sound.queue, (retransmit_usable hc.sound.window _ _ _ _).1⟩, hc.mtu_eq, hc.queue,
        fun y hy => hc.window y (hletters.1 hy)⟩, emits_retransmit hc.window _ _ _ _⟩
    · exact ⟨hc, emits_nil⟩
  have hack : ∀ {c : Client}, c.Carries mtu P →
      (c.ackStep workerState sent).1.Carries mtu P ∧ Emits P (c.ackStep workerState sent).2 := by
    intro c hc
    unfold ackStep
    split_ifs
    · exact ⟨hc.congr rfl rfl rfl, emits_other (by decide) _ _ _ _ _ _⟩
    · exact ⟨hc, emits_nil⟩
  have hbeat : ∀ {c : Client}, c.Carries mtu P →
      (c.heartbeatStep workerState nowNs sent).1.Carries mtu P ∧
        Emits P (c.heartbeatStep workerState nowNs sent).2 := by
    intro c hc
    unfold heartbeatStep
    split_ifs
    · exact ⟨hc.congr rfl rfl rfl, emits_other (by decide) _ _ _ _ _ _⟩
    · exact ⟨hc, emits_nil⟩
  have hexpire : ∀ {c : Client}, c.Carries mtu P →
      (c.inactivityStep workerState nowNs).Carries mtu P := by
    intro c hc
    rcases c.inactivityStep_cases workerState nowNs with h | h | ⟨-, h⟩ <;> rw [h]
    · exact hc
    · exact hc.congr rfl rfl rfl
    · exact hc.triggerReconnect nowNs
  obtain ⟨h1, out1⟩ := hresend
  obtain ⟨h2, out2⟩ := hack h1
  obtain ⟨h3, out3⟩ := hbeat h2
  exact ⟨hexpire h3, (out1.append out2).append out3⟩

/-- **What an event of the client sends is what it carries.** -/
theorem Carries.emits {p p' : ClientProc} {e : ClientEvent} {out : List Packet}
    (hp : p.client.Carries mtu P) (hmove : p.Moves e p' out) : Emits P out := by
  cases hmove with
  | disconnectBegin => exact hp.disconnectBegin.2
  | turn nowNs sent => exact (hp.handshake _ _ nowNs sent).2
  | packet srcAddr pkt nowNs sent workerState =>
    exact (hp.onPacket workerState srcAddr pkt nowNs sent).2
  | drain nowNs sent workerState => exact (hp.drainStep workerState nowNs sent).2
  | timers nowNs sent workerState => exact (hp.timers workerState nowNs sent).2
  | send | recv | disconnectEnd | connect | stop | endPoll | endDrain => exact emits_nil

/-- **Every event keeps what the client carries.** -/
theorem Carries.moves {p p' : ClientProc} {e : ClientEvent} {out : List Packet}
    (hp : p.client.Carries mtu P)
    (hsend : ∀ mode data len, e = .send mode data len → len ≤ maxPayload mtu →
      P (Message.ofPush mode data len))
    (hmove : p.Moves e p' out) : p'.client.Carries mtu P := by
  cases hmove with
  | send mode data len => exact hp.send (hsend mode data len rfl)
  | recv => exact hp.congr rfl rfl rfl
  | disconnectBegin => exact hp.disconnectBegin.1
  | disconnectEnd => exact hp.disconnectEnd
  | connect nowNs ok => exact hp.connectBegin nowNs ok
  | turn nowNs sent => exact (hp.handshake _ _ nowNs sent).1
  | packet srcAddr pkt nowNs sent workerState =>
    exact (hp.onPacket workerState srcAddr pkt nowNs sent).1
  | drain nowNs sent workerState => exact (hp.drainStep workerState nowNs sent).1
  | timers nowNs sent workerState => exact (hp.timers workerState nowNs sent).1
  | stop | endPoll | endDrain => exact hp

theorem Carries.run {p p' : ClientProc} {es : List ClientEvent} (hp : p.client.Carries mtu P)
    (hsend : ∀ mode data len, .send mode data len ∈ es → len ≤ maxPayload mtu →
      P (Message.ofPush mode data len)) (hrun : p.run es = some p') : p'.client.Carries mtu P := by
  refine ClientProc.run_induction_mem (P := fun p => p.client.Carries mtu P) ?_ hp hrun
  intro e he p p' out hp hmove
  refine hp.moves ?_ hmove
  rintro mode data len rfl hlen
  exact hsend mode data len he hlen

end Carries

end Client

/-! ### The server -/

namespace Server

/-- All copies of messages on their way out satisfy `P`. -/
structure Carries (mtu : UInt16) (P : Message → Prop) (s : Server) : Prop where
  stocked : s.Stocked
  mtu_eq : s.config.mtu = mtu
  queue : ∀ x ∈ s.sendQueue.contents, P x.message
  pending : ∀ x ∈ s.pendingItem, P x.message
  windows : ∀ i, ∀ y ∈ (s.table.slot i).sendWin.letters, P y.2

section Carries

variable {mtu : UInt16} {P : Message → Prop} {s : Server}

theorem create_carries {config : ServerConfig} {a : CreateAllocs} (h : create config a = some s) :
    s.Carries config.withDefaults.mtu P := by
  have hstocked := create_stocked h
  obtain ⟨sendQueue, recvQueue, table, hqueue, -, htable, rfl⟩ := create_some h
  refine ⟨hstocked, rfl, ?_, by simp, ?_⟩
  · dsimp only
    rw [(MpmcQueue.init_rep hqueue).1.contents_eq]
    exact List.forall_mem_nil _
  · intro i
    dsimp only
    rw [Tracked.letters_slot_init htable i]
    exact List.forall_mem_nil _

/-- A turn of the drain loop takes a message that the server carries. -/
theorem Carries.takeItem (hs : s.Carries mtu P) :
    s.takeItem.2.Carries mtu P ∧ ∀ x ∈ s.takeItem.1, P x.message := by
  have hstocked := hs.stocked.takeItem.1
  unfold Server.takeItem at hstocked ⊢
  cases hp : s.pendingItem with
  | some item =>
    refine ⟨hs, ?_⟩
    intro x hx
    exact hs.pending x (hp ▸ hx)
  | none =>
    rw [hp] at hstocked
    obtain ⟨hrest, hitem⟩ := hs.stocked.queue.pop_contents hs.queue
    exact ⟨⟨hstocked, hs.mtu_eq, hrest, hitem, hs.windows⟩, hitem⟩

/-- The windows after an event that is not a drain. -/
theorem Carries.windows_exec (hs : s.Carries mtu P) {e : ServerEvent}
    (hdrain : ∀ nowNs sent, e ≠ .drain nowNs sent) (i : ℕ) :
    ∀ y ∈ ((s.exec e).1.table.slot i).sendWin.letters, P y.2 := by
  intro y hy
  cases halloc : s.allocatedSlot e with
  | none => exact hs.windows i y (letters_exec s hdrain halloc i hy)
  | some k =>
    obtain ⟨hother, hnew⟩ := exec_of_allocatedSlot s halloc
    by_cases hik : i = k
    · rw [hik, hnew] at hy
      exact absurd hy List.not_mem_nil
    · rw [hother i hik] at hy
      exact hs.windows i y hy

/-- **What an event of the server sends is what it carries.** -/
theorem Carries.emits (hs : s.Carries mtu P) {e : ServerEvent} {s' : Server}
    {out : List (NetAddr × Packet)} (hmove : s.Moves e s' out) : Emits P (out.map Prod.snd) := by
  cases hmove with
  | idle | start | stop | send | recv | connectAck | disconnect | drainNone | drainDiscard
  | drainHold | expire => exact emits_nil
  | kick | accept | reject | enroll | ack | heartbeat =>
    exact emits_other (by decide) _ _ _ _ _ _
  | noSession srcAddr pkt =>
    unfold resetReply
    split_ifs
    · exact emits_other (by decide) _ _ _ _ _ _
    · exact emits_nil
  | process srcAddr pkt nowNs stackAddr callocSend callocRecv sent i =>
    unfold processPacket
    dsimp only
    by_cases hbeat : pkt.hdr.packetType = PktType.heartbeat.code
    · simp only [if_pos hbeat]
      exact emits_other (by decide) _ _ _ _ _ _
    · simp only [if_neg hbeat]
      exact emits_nil
  | drainPush nowNs sent item i sendWin seq htake =>
    exact emits_item (hs.takeItem.2 item htake) _ _ _
  | retransmit i nowNs sent =>
    rw [packets_afterRetransmit]
    exact emits_retransmit (hs.windows i) _ _ _ _

theorem Carries.drain (hs : s.Carries mtu P) (nowNs : UInt64) (sent : Bool) {s' : Server}
    {out : List (NetAddr × Packet)} (hmove : s.Moves (.drain nowNs sent) s' out) :
    s'.Carries mtu P := by
  have hstocked := hs.stocked.moves hmove
  obtain ⟨htaken, hitem⟩ := hs.takeItem
  cases hmove with
  | idle => exact hs
  | drainNone | drainHold => exact htaken
  | drainDiscard => exact ⟨hstocked, htaken.mtu_eq, htaken.queue, by simp, hs.windows⟩
  | drainPush nowNs sent item i sendWin seq htake hfind hstate hcan hpush =>
    refine ⟨hstocked, htaken.mtu_eq, htaken.queue, by simp, ?_⟩
    intro j
    rcases s.table.slot_setSlot_cases i (afterPush (s.table.slot i) sendWin item seq sent).1 j
      with heq | ⟨rfl, heq⟩
    · dsimp only
      rw [heq]
      exact hs.windows j
    · dsimp only
      rw [heq]
      exact SendWindow.message_push (hs.windows j) (hitem item htake) hpush

theorem Carries.send (hs : s.Carries mtu P) {clientId : UInt32} {mode : UInt8} {data : List UInt8}
    {len : ℕ} (hP : len ≤ maxPayload mtu → P (Message.ofPush mode data len)) {s' : Server}
    {out : List (NetAddr × Packet)} (hmove : s.Moves (.send clientId mode data len) s' out) :
    s'.Carries mtu P := by
  have hstocked := hs.stocked.moves hmove
  cases hmove with
  | idle => exact hs
  | send _ _ _ _ hlen =>
    have hle : len ≤ maxPayload mtu := hs.mtu_eq ▸ hlen
    have hmsg := message_ofSend clientId mode data (lt_of_le_maxPayload hle)
    exact ⟨hstocked, hs.mtu_eq,
      hs.stocked.queue.pushBack_contents hs.queue (hmsg.symm ▸ hP hle), hs.pending, hs.windows⟩

theorem Carries.stop (hs : s.Carries mtu P) : s.stop.Carries mtu P := by
  have hstocked := hs.stocked.stop
  unfold Server.stop at hstocked ⊢
  split_ifs at hstocked ⊢
  · exact hs
  · obtain ⟨l, hl, -⟩ := hs.stocked.queue
    have hempty := emptyQueue_rep hl (Nat.lt_succ_of_le hl.count_eq.ge)
    refine ⟨hstocked, hs.mtu_eq, ?_, by simp, ?_⟩
    · dsimp only
      rw [hempty.contents_eq]
      exact List.forall_mem_nil _
    · intro i y hy
      exact hs.windows i y (letters_slot_foldl_free _ i s.table hy)

/-- **Every event keeps what the server carries.** -/
theorem Carries.exec (hs : s.Carries mtu P) {e : ServerEvent}
    (hsend : ∀ clientId mode data len, e = .send clientId mode data len → len ≤ maxPayload mtu →
      P (Message.ofPush mode data len)) : (s.exec e).1.Carries mtu P := by
  have hmove := s.moves_exec e
  cases e with
  | drain nowNs sent => exact hs.drain nowNs sent hmove
  | send clientId mode data len => exact hs.send (hsend clientId mode data len rfl) hmove
  | stop => exact hs.stop
  | start | recv | disconnectClient | packet | expire | retransmit | ack | heartbeat =>
    obtain ⟨hqueue, hpending⟩ := hmove.queue_eq
    exact ⟨hs.stocked.moves hmove, hmove.config_eq ▸ hs.mtu_eq, hqueue ▸ hs.queue,
      hpending ▸ hs.pending, hs.windows_exec (by simp)⟩

theorem Carries.run {es : List ServerEvent} (hs : s.Carries mtu P)
    (hsend : ∀ clientId mode data len, .send clientId mode data len ∈ es → len ≤ maxPayload mtu →
      P (Message.ofPush mode data len)) : (s.run es).Carries mtu P := by
  induction es generalizing s with
  | nil => exact hs
  | cons e es ih =>
    refine ih (hs.exec ?_) ?_
    · rintro clientId mode data len rfl hlen
      exact hsend clientId mode data len List.mem_cons_self hlen
    · intro clientId mode data len hmem hlen
      exact hsend clientId mode data len (List.mem_cons_of_mem e hmem) hlen

end Carries

end Server

end Rel4u
