import Rel4u.Client.Run

/-!
# Reconnecting (`client_trigger_reconnect`)

A reconnect pushes the unacknowledged messages of the send window to the front of `sendQueue` and
resets the window. `Sound` is what every run of a client keeps: `sendQueue` is a well-formed queue
of messages that fit in a slot, and `sendWin` a usable window. From a sound state the queue after a
reconnect is given by `Deque.pushesFront`, and what the window held is kept exactly when it fits
(`reconnect_keeps_window_iff`).

Messages may be equal, so to say which of them are kept, they are numbered: those of the window
first, then those of the queue.
-/

namespace Rel4u

namespace Client

/-- What every run keeps. -/
structure Sound (c : Client) : Prop where
  queue : c.sendQueue.Short
  window : c.sendWin.Usable

section Sound

variable {c : Client}

/-- Only the queue and the window matter. -/
theorem Sound.congr (hc : c.Sound) {c' : Client} (hq : c'.sendQueue = c.sendQueue)
    (hw : c'.sendWin = c.sendWin) : c'.Sound :=
  ⟨hq ▸ hc.queue, hw ▸ hc.window⟩

theorem create_sound {config : ClientConfig} {a : CreateAllocs} (h : create config a = some c) :
    c.Sound := by
  obtain ⟨q, -, hq, hs, -, rfl⟩ := create_some h
  exact ⟨⟨[], (MpmcQueue.init_rep hq).1, by simp⟩, SendWindow.init_usable hs⟩

theorem Sound.send (hc : c.Sound) (mode : UInt8) (data : List UInt8) (len : ℕ) :
    (c.send mode data len).2.Sound := by
  unfold Client.send
  split_ifs
  · exact hc
  · exact hc
  · exact hc
  · have hpush := hc.queue.pushBack (.ofSend 0 mode data len)
    split <;> next heq =>
      rw [MpmcQueue.tryPush] at heq
      rw [heq] at hpush
      exact ⟨hpush, hc.window⟩

theorem Sound.resetConnection (hc : c.Sound) : c.resetConnection.Sound :=
  ⟨hc.queue, hc.window.reset_usable 1⟩

theorem Sound.disconnectEnd (hc : c.Sound) : c.disconnectEnd.Sound := by
  unfold Client.disconnectEnd
  split_ifs
  · exact Sound.resetConnection ⟨hc.queue, hc.window⟩
  · exact hc.congr rfl rfl

theorem Sound.connectBegin (hc : c.Sound) (nowNs : UInt64) (ok : Bool) :
    (c.connectBegin nowNs ok).Sound := by
  unfold Client.connectBegin
  dsimp only
  split_ifs <;> exact hc.resetConnection.congr rfl rfl

/-! ### The reconnect -/

/-- What is in the window and unacknowledged, numbered. -/
def windowItems (c : Client) : List (MpmcItem × ℕ) := c.sendWin.unackedItems.zipIdx

/-- What is in the queue, numbered on. -/
def queuedItems (c : Client) : List (MpmcItem × ℕ) :=
  c.sendQueue.contents.zipIdx c.sendWin.unackedItems.length

/-- The queue after the window's messages have been pushed to its front one by one. -/
def reclaimedItems (c : Client) : List (MpmcItem × ℕ) :=
  (Deque.pushesFront (fun x => c.sendQueue.weight x.1) c.sendQueue.limit c.sendQueue.evicts
    c.sendQueue.allocs c.windowItems (c.queuedItems, c.sendQueue.heap.brk)).1

/-- The unacknowledged messages fit in the queue, beside what the first push leaves of it, and
every node can be allocated. -/
def RoomToReclaim (c : Client) : Prop :=
  Deque.FitsAll c.sendQueue.weight c.sendQueue.limit c.sendQueue.evicts c.sendQueue.allocs
    c.sendWin.unackedItems c.sendQueue.contents c.sendQueue.heap.brk

instance (c : Client) : Decidable c.RoomToReclaim := inferInstanceAs (Decidable (Deque.FitsAll ..))

theorem Sound.reclaim (hc : c.Sound) :
    (c.sendWin.reclaimUnacked c.sendQueue).1.Rep
      (Deque.pushesFront c.sendQueue.weight c.sendQueue.limit c.sendQueue.evicts
        c.sendQueue.allocs c.sendWin.unackedItems
        (c.sendQueue.contents, c.sendQueue.heap.brk)).1 := by
  obtain ⟨l, hl, -⟩ := hc.queue
  rw [hc.window.reclaimUnacked_eq, hl.contents_eq]
  exact (hl.foldr_pushFront (fun x hx => hc.window.mem_unackedItems hx) _ (fun _ _ => rfl) 0).1

theorem Sound.triggerReconnect (hc : c.Sound) (nowNs : UInt64) :
    (c.triggerReconnect nowNs).Sound := by
  unfold Client.triggerReconnect
  split_ifs
  · exact hc.congr rfl rfl
  · refine ⟨⟨_, hc.reclaim, fun x hx => ?_⟩, hc.window.reset_usable 1⟩
    obtain ⟨l, hl, hshort⟩ := hc.queue
    rw [hl.contents_eq] at hx
    rcases List.mem_append.1 (Deque.pushesFront_sublist.subset hx) with hx | hx
    · exact (hc.window.mem_unackedItems hx).1
    · exact hshort x hx

/-! ### The worker -/

theorem Sound.handshake (hc : c.Sound) (workerState : ConnState) (last nowNs : UInt64)
    (sent : Bool) : (c.handshake workerState last nowNs sent).1.Sound := by
  unfold Client.handshake
  split_ifs
  · exact hc.congr rfl rfl
  · exact hc

theorem Sound.onSessionPacket (hc : c.Sound) (pkt : Packet) (nowNs : UInt64) (sent : Bool) :
    (c.onSessionPacket pkt nowNs sent).1.Sound := by
  have hw := hc.window.onAck_usable pkt.hdr.ackNum pkt.hdr.sackMask nowNs c.rtt
  unfold Client.onSessionPacket
  dsimp only
  split_ifs <;> exact ⟨hc.queue, hw.1⟩

theorem Sound.onPacket (hc : c.Sound) (workerState : ConnState) (srcAddr : NetAddr) (pkt : Packet)
    (nowNs : UInt64) (sent : Bool) :
    (c.onPacket workerState srcAddr pkt nowNs sent).1.Sound := by
  have hactive : ({ c with lastActivityNs := nowNs } : Client).Sound := hc.congr rfl rfl
  unfold Client.onPacket Client.handle
  split_ifs
  · exact hc
  · exact hc
  · exact hc.congr rfl rfl
  · exact hactive.triggerReconnect nowNs
  · exact hc.congr rfl rfl
  · exact hc.congr rfl rfl
  · exact hactive.onSessionPacket pkt nowNs sent

theorem Sound.drainStep (hc : c.Sound) (workerState : ConnState) (nowNs : UInt64) (sent : Bool) :
    (c.drainStep workerState nowNs sent).2.1.Sound := by
  obtain ⟨hpop, -⟩ := hc.queue.pop
  unfold Client.drainStep
  split_ifs
  · split
    · next sendQueue heq =>
      rw [MpmcQueue.tryPop] at heq
      rw [heq] at hpop
      exact ⟨hpop, hc.window⟩
    · next item sendQueue heq =>
      rw [MpmcQueue.tryPop] at heq
      rw [heq] at hpop
      dsimp only
      split
      · next sendWin seq hpush => exact ⟨hpop, (hc.window.push_usable hpush).1⟩
      · exact ⟨hpop, hc.window⟩
  · exact hc

theorem Sound.timers (hc : c.Sound) (workerState : ConnState) (nowNs : UInt64) (sent : Bool) :
    (c.timers workerState nowNs sent).1.Sound := by
  have h1 : (c.retransmitStep workerState nowNs sent).1.Sound := by
    unfold retransmitStep
    split_ifs
    · exact ⟨hc.queue, (retransmit_usable hc.window _ _ _ _).1⟩
    · exact hc
  have h2 : ∀ {c : Client}, c.Sound → (c.ackStep workerState sent).1.Sound := by
    intro c hc
    unfold ackStep
    split_ifs
    · exact hc.congr rfl rfl
    · exact hc
  have h3 : ∀ {c : Client}, c.Sound → (c.heartbeatStep workerState nowNs sent).1.Sound := by
    intro c hc
    unfold heartbeatStep
    split_ifs
    · exact hc.congr rfl rfl
    · exact hc
  have h4 : ∀ {c : Client}, c.Sound → (c.inactivityStep workerState nowNs).Sound := by
    intro c hc
    unfold inactivityStep
    split_ifs
    · exact hc.congr rfl rfl
    · exact hc.triggerReconnect nowNs
    · exact hc
  exact h4 (h3 (h2 h1))

/-- **Every event keeps the client sound.** -/
theorem Sound.moves {p p' : ClientProc} {e : ClientEvent} {out : List Packet}
    (hp : p.client.Sound) (hstep : p.Moves e p' out) : p'.client.Sound := by
  cases hstep with
  | send mode data len => exact hp.send mode data len
  | recv => exact hp.congr rfl rfl
  | disconnectBegin =>
    refine hp.congr ?_ ?_ <;> (unfold Client.disconnectBegin; split_ifs <;> rfl)
  | disconnectEnd => exact hp.disconnectEnd
  | connect nowNs ok => exact hp.connectBegin nowNs ok
  | turn nowNs sent => exact hp.handshake _ _ nowNs sent
  | packet srcAddr pkt nowNs sent workerState =>
    exact hp.onPacket workerState srcAddr pkt nowNs sent
  | drain nowNs sent workerState => exact hp.drainStep workerState nowNs sent
  | timers nowNs sent workerState => exact hp.timers workerState nowNs sent
  | stop | endPoll | endDrain => exact hp

/-- **Every run keeps the client sound.** -/
theorem sound_of_reachable {config : ClientConfig} {a : CreateAllocs} {p : ClientProc}
    (hp : ClientProc.Reachable config a p) : p.client.Sound := by
  obtain ⟨c, es, hcreate, hrun⟩ := hp
  exact ClientProc.run_induction (P := fun p => p.client.Sound) Sound.moves
    (create_sound hcreate) hrun

/-! ### What a reconnect keeps -/

theorem windowItems_map (c : Client) : c.windowItems.map Prod.fst = c.sendWin.unackedItems :=
  List.zipIdx_map_fst 0 _

theorem queuedItems_map (c : Client) : c.queuedItems.map Prod.fst = c.sendQueue.contents :=
  List.zipIdx_map_fst _ _

/-- The numbers tell all the messages apart. -/
theorem numbered_nodup (c : Client) : (c.windowItems ++ c.queuedItems).Nodup := by
  have happ : c.windowItems ++ c.queuedItems =
      (c.sendWin.unackedItems ++ c.sendQueue.contents).zipIdx := by
    rw [List.zipIdx_append, Nat.zero_add]
    rfl
  rw [happ]
  refine List.Nodup.of_map Prod.snd ?_
  rw [List.zipIdx_map_snd]
  exact List.nodup_range'

/-- Whether the messages fit depends on them, not on their numbers. -/
theorem fitsAll_numbered_iff (c : Client) :
    Deque.FitsAll (fun x => c.sendQueue.weight x.1) c.sendQueue.limit c.sendQueue.evicts
      c.sendQueue.allocs c.windowItems c.queuedItems c.sendQueue.heap.brk ↔ c.RoomToReclaim := by
  rw [RoomToReclaim, ← windowItems_map, ← queuedItems_map]
  exact (Deque.fitsAll_map Prod.fst).symm

theorem Sound.contents_triggerReconnect (hc : c.Sound)
    (hauto : c.config.disableAutoReconnect = false) (nowNs : UInt64) :
    (c.triggerReconnect nowNs).sendQueue.contents = c.reclaimedItems.map Prod.fst := by
  have hqueue : (c.triggerReconnect nowNs).sendQueue =
      (c.sendWin.reclaimUnacked c.sendQueue).1 := by
    simp [Client.triggerReconnect, hauto]
  have hrep := hc.reclaim
  rw [← windowItems_map, ← queuedItems_map, Deque.pushesFront_map] at hrep
  rw [hqueue, hrep.contents_eq]
  rfl

end Sound

/-- **What a reconnect does to the send queue.** In every reachable state the queue after
`client_trigger_reconnect` is what pushing the window's unacknowledged messages to its front gives;
they are all there, ahead of what is left of the queue and in ascending order, exactly when there
is room for them. -/
theorem reconnect_keeps_window_iff {config : ClientConfig} {a : CreateAllocs} {p : ClientProc}
    (hp : ClientProc.Reachable config a p)
    (hauto : p.client.config.disableAutoReconnect = false) (nowNs : UInt64) :
    (p.client.triggerReconnect nowNs).sendQueue.contents =
        p.client.reclaimedItems.map Prod.fst ∧
      ((∃ rest, rest <:+ p.client.queuedItems ∧
          p.client.reclaimedItems = p.client.windowItems ++ rest) ↔ p.client.RoomToReclaim) ∧
      (p.client.RoomToReclaim → ∃ rest, rest <:+ p.client.sendQueue.contents ∧
        (p.client.triggerReconnect nowNs).sendQueue.contents =
          p.client.sendWin.unackedItems ++ rest) := by
  have hc := sound_of_reachable hp
  have hcontents := hc.contents_triggerReconnect hauto nowNs
  have hiff : (∃ rest, rest <:+ p.client.queuedItems ∧
      p.client.reclaimedItems = p.client.windowItems ++ rest) ↔ p.client.RoomToReclaim :=
    (Deque.pushesFront_keeps_iff p.client.numbered_nodup).trans p.client.fitsAll_numbered_iff
  refine ⟨hcontents, hiff, fun hroom => ?_⟩
  obtain ⟨rest, hrest, heq⟩ := hiff.2 hroom
  refine ⟨rest.map Prod.fst, ?_, ?_⟩
  · rw [← queuedItems_map]
    exact hrest.map Prod.fst
  · rw [hcontents, heq, List.map_append, windowItems_map]

/-- A client with the smallest queues and windows, which refuses what does not fit. -/
def smallConfig : ClientConfig :=
  { serverAddr := .inet 9000 1
    mtu := 1400
    sendQueueCapacity := 8
    recvQueueCapacity := 8
    windowSize := 8
    heartbeatIntervalMs := 1000
    inactivityTimeoutMs := 5000
    disableAutoReconnect := false
    reconnectIntervalMs := 1000
    memoryMode := .fixed
    queueFullPolicy := .dropNew
    maxSendMemoryBytes := 0
    maxRecvMemoryBytes := 0 }

/-- Connect under the session id 5. -/
def connectFirst : List ClientEvent :=
  [.connect 0 true, .turn 200000000 true,
    .packet (.inet 9000 1) (mkPacket .connectResp 0 5 0 (0, 0) [] 0) 200000001 true]

/-- Send one message that enters the window, then `k` more that stay in the queue. -/
def sendMany (k : ℕ) : List ClientEvent :=
  connectFirst ++ [.send 3 [7] 1, .endPoll, .drain 200000002 true] ++
    List.replicate k (.send 3 [9] 1)

/-- Send an unordered and an ordered message that enter the window, then two more, in the other
order, that stay in the queue. -/
def sendMixed : List ClientEvent :=
  connectFirst ++ [.send 2 [112, 105, 110, 103] 4, .send 3 [111, 110, 101] 3, .endPoll,
    .drain 200000002 true, .drain 200000003 true, .send 3 [116, 119, 111] 3, .send 2 [112] 1]

/-- The state a run reaches. -/
def after (es : List ClientEvent) : Option ClientProc :=
  (create smallConfig CreateAllocs.allOk).bind fun c => (ClientProc.start c).run es

theorem reachable_after {es : List ClientEvent} {p : ClientProc} (h : after es = some p) :
    ClientProc.Reachable smallConfig CreateAllocs.allOk p := by
  obtain ⟨c, hc, hrun⟩ := Option.bind_eq_some_iff.1 h
  exact ⟨c, es, hc, hrun⟩

/-- With two messages queued there is room, and the reconnect keeps the two in the window, with
their modes, lengths and bytes, ahead of the queued ones. -/
theorem reconnect_keeps_window_of_two :
    ∃ p, ClientProc.Reachable smallConfig CreateAllocs.allOk p ∧ p.client.RoomToReclaim ∧
      p.client.sendWin.unackedItems =
        [⟨0, 2, 4, [112, 105, 110, 103]⟩, ⟨0, 3, 3, [111, 110, 101]⟩] ∧
      p.client.sendQueue.contents = [⟨0, 3, 3, [116, 119, 111]⟩, ⟨0, 2, 1, [112]⟩] ∧
      ∃ rest, rest <:+ p.client.sendQueue.contents ∧
        (p.client.triggerReconnect 0).sendQueue.contents =
          p.client.sendWin.unackedItems ++ rest := by
  have hsome : (after sendMixed).isSome = true := by decide +kernel
  obtain ⟨p, hp⟩ := Option.isSome_iff_exists.1 hsome
  have hval : (after sendMixed).map (fun p => (p.client.config.disableAutoReconnect,
      decide p.client.RoomToReclaim, p.client.sendWin.unackedItems,
      p.client.sendQueue.contents)) =
      some (false, true, [⟨0, 2, 4, [112, 105, 110, 103]⟩, ⟨0, 3, 3, [111, 110, 101]⟩],
        [⟨0, 3, 3, [116, 119, 111]⟩, ⟨0, 2, 1, [112]⟩]) := by
    decide +kernel
  rw [hp, Option.map_some, Option.some.injEq, Prod.mk.injEq, Prod.mk.injEq, Prod.mk.injEq,
    decide_eq_true_eq] at hval
  obtain ⟨hauto, hroom, hu, hqueue⟩ := hval
  have hreach := reachable_after hp
  exact ⟨p, hreach, hroom, hu, hqueue, (reconnect_keeps_window_iff hreach hauto 0).2.2 hroom⟩

/-- With eight messages queued the queue is full: the reconnect discards the one in the window. -/
theorem reconnect_discards_window :
    ∃ p, ClientProc.Reachable smallConfig CreateAllocs.allOk p ∧
      p.client.config.disableAutoReconnect = false ∧
      ∃ x ∈ p.client.sendWin.unackedItems,
        x ∉ (p.client.triggerReconnect 0).sendQueue.contents := by
  have hsome : (after (sendMany 8)).isSome = true := by decide +kernel
  obtain ⟨p, hp⟩ := Option.isSome_iff_exists.1 hsome
  have hval : (after (sendMany 8)).map (fun p => (p.client.config.disableAutoReconnect,
      decide (∃ x ∈ p.client.sendWin.unackedItems,
        x ∉ (p.client.triggerReconnect 0).sendQueue.contents))) = some (false, true) := by
    decide +kernel
  rw [hp, Option.map_some, Option.some.injEq, Prod.mk.injEq, decide_eq_true_eq] at hval
  exact ⟨p, reachable_after hp, hval.1, hval.2⟩

end Client

end Rel4u
