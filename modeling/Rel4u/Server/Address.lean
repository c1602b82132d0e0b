import Rel4u.Server.TableRun

/-!
# Messages and the sessions they are addressed to

`rel4u_server_send` queues a message under the number of a slot. Between the call and the drain the
slot can be freed and given to another session, and the drain then sends the message there.

To say so, `Tracked` follows each message beside the server: for a message that waits in `sendQueue`
or in `pendingItem`, the session that occupied its slot when it was accepted; for a message that has
been pushed into a window, that session and the one it was pushed to. A session is a slot and the
number of the occupant. The server itself is run unchanged (`Tracked.run_server`).

If no slot is given away while messages for an earlier occupant are waiting, every message goes to
its session (`message_stays_with_session`); otherwise it may not (`message_changes_session`).
-/

namespace Rel4u

open Deque (keepLast map_keepLast mem_of_mem_keepLast)

/-- A session: a slot of the table, and the number of the occupant, counted from one. -/
structure SessionRef where
  slot : ℕ
  occupant : ℕ
  deriving DecidableEq, Repr

/-- A waiting message, with the session that occupied its slot when it was accepted, if any. -/
structure Letter where
  item : MpmcItem
  origin : Option SessionRef

/-- A message in a send window: the session it was accepted for, the one it was pushed to, and its
sequence number there. -/
structure Posting where
  origin : Option SessionRef
  target : SessionRef
  seq : UInt32
  message : Message

/-- The slot that an event gives to a new session. -/
def Server.allocatedSlot (s : Server) : ServerEvent → Option ℕ
  | .packet srcAddr pkt nowNs stackAddr callocSend callocRecv _ =>
    if s.running = true ∧ pkt.hdr.packetType = PktType.connectReq.code ∧
        s.table.findByAddr srcAddr = none then
      match (s.table.allocate srcAddr (Server.newSessionId nowNs stackAddr) callocSend
          callocRecv).1 with
      | some (slotIdx, _) => if 0 ≤ slotIdx then some slotIdx.toNat else none
      | none => none
    else none
  | _ => none

namespace Server

variable (s : Server)

/-- A call that does not come to the queue changes nothing and is not accepted. -/
theorem send_cases (clientId : UInt32) (mode : UInt8) (data : List UInt8) (len : ℕ) :
    ((s.send clientId mode data len).1 ≠ 0 ∧ (s.send clientId mode data len).2 = s) ∨
      ((MpmcItem.ofSend clientId mode data len).trim = .ofSend clientId mode data len ∧
        s.send clientId mode data len =
          (if (s.sendQueue.pushBackLocked (.ofSend clientId mode data len)).1 then 0 else -4,
            { s with
              sendQueue := (s.sendQueue.pushBackLocked (.ofSend clientId mode data len)).2 })) := by
  unfold Server.send
  by_cases hlong : len > maxPayload s.config.mtu
  · rw [if_pos hlong]
    exact Or.inl ⟨by simp, rfl⟩
  rw [if_neg hlong]
  by_cases hrun : (!s.running) = true
  · rw [if_pos hrun]
    exact Or.inl ⟨by simp, rfl⟩
  rw [if_neg hrun]
  right
  have hlen : (UInt16.ofNat len).toNat = len := by
    have := s.config.mtu.toNat_lt
    rw [maxPayload] at hlong
    exact UInt16.toNat_ofNat_of_lt' (by rw [show UInt16.size = 65536 from rfl]; omega)
  refine ⟨by simp [MpmcItem.ofSend, MpmcItem.trim, hlen], ?_⟩
  simp only [MpmcQueue.tryPush]
  split <;> next heq => rw [heq]; rfl

/-- Only `stop`, a send and a drain touch the queue, and only `stop` and a drain `pendingItem`. -/
theorem Moves.queue_eq {s s' : Server} {e : ServerEvent} {out : List (NetAddr × Packet)}
    (h : s.Moves e s' out) :
    match e with
    | .send .. => s'.pendingItem = s.pendingItem
    | .stop | .drain .. => True
    | _ => s'.sendQueue = s.sendQueue ∧ s'.pendingItem = s.pendingItem := by
  cases h with
  | idle =>
    cases e with
    | send => rfl
    | stop | drain => trivial
    | start | recv | disconnectClient | packet | expire | retransmit | ack | heartbeat =>
      exact ⟨rfl, rfl⟩
  | send => rfl
  | stop | drainNone | drainDiscard | drainHold | drainPush => trivial
  | start | recv | kick | accept | reject | enroll | noSession | connectAck | disconnect | process
  | expire | retransmit | ack | heartbeat => exact ⟨rfl, rfl⟩

/-- Popping until nothing comes empties the queue. -/
theorem emptyQueue_rep {fuel : ℕ} : ∀ {q : MpmcQueue} {l : List MpmcItem}, q.Rep l →
    l.length < fuel → (emptyQueue fuel q).Rep [] := by
  induction fuel with
  | zero => intro q l _ hl; omega
  | succ fuel ih =>
    intro q l hq hl
    obtain ⟨h1, h2, -⟩ := hq.pop
    unfold emptyQueue
    split
    · next item q' heq =>
      rw [MpmcQueue.tryPop] at heq
      rw [heq] at h1 h2
      cases l with
      | nil => exact absurd h1 (by simp)
      | cons x l => exact ih h2 (by simpa using hl)
    · next q' heq =>
      rw [MpmcQueue.tryPop] at heq
      rw [heq] at h1 h2
      cases l with
      | nil => exact h2
      | cons x l => exact absurd h1 (by simp)

/-! ### What events do to the messages in the windows -/

theorem letters_slot_setSlot (t : SessionTable) (i : ℕ) (session : Session)
    (h : session.sendWin.letters ⊆ (t.slot i).sendWin.letters) (j : ℕ) :
    ((t.setSlot i session).slot j).sendWin.letters ⊆ (t.slot j).sendWin.letters := by
  rcases t.slot_setSlot_cases i session j with heq | ⟨rfl, heq⟩
  · rw [heq]
    exact List.Subset.refl _
  · rw [heq]
    exact h

theorem letters_slot_free (t : SessionTable) (i j : ℕ) :
    ((t.free i).slot j).sendWin.letters ⊆ (t.slot j).sendWin.letters := by
  have h := letters_slot_setSlot t i (t.slot i).freed (List.Subset.refl _) j
  unfold SessionTable.free
  dsimp only
  split_ifs
  · exact h
  · exact h
  · exact List.Subset.refl _

theorem letters_slot_foldl_free (l : List ℕ) (j : ℕ) : ∀ t : SessionTable,
    ((l.foldl SessionTable.free t).slot j).sendWin.letters ⊆ (t.slot j).sendWin.letters := by
  induction l with
  | nil => intro t; exact List.Subset.refl _
  | cons i l ih => intro t; exact List.Subset.trans (ih _) (letters_slot_free t i j)

/-- The window of a new session holds no message. -/
theorem letters_allocate {t t' : SessionTable} {addr : NetAddr} {sessionId : UInt32}
    {callocSend callocRecv : Bool} {slotIdx : ℤ} {session : Session}
    (h : t.allocate addr sessionId callocSend callocRecv = (some (slotIdx, session), t')) :
    session.sendWin.letters = [] := by
  unfold SessionTable.allocate at h
  dsimp only at h
  split_ifs at h with hneg
  · exact absurd (Prod.mk.inj h).1 (by simp)
  obtain ⟨-, rfl⟩ := Prod.mk.inj (Option.some.inj (Prod.mk.inj h).1)
  exact SendWindow.letters_init rfl

/-- The event that gives slot `k` to a new session. -/
theorem exec_of_allocatedSlot {e : ServerEvent} {k : ℕ} (h : s.allocatedSlot e = some k) :
    (∀ j, j ≠ k → (s.exec e).1.table.slot j = s.table.slot j) ∧
      ((s.exec e).1.table.slot k).sendWin.letters = [] := by
  cases e with
  | packet srcAddr pkt nowNs stackAddr callocSend callocRecv sent =>
    unfold allocatedSlot at h
    dsimp only at h
    split_ifs at h with hguard
    obtain ⟨hrun, htype, hfind⟩ := hguard
    generalize halloc : s.table.allocate srcAddr (newSessionId nowNs stackAddr) callocSend
      callocRecv = r at h
    obtain ⟨_ | ⟨slotIdx, session⟩, table⟩ := r
    · exact absurd h (by simp)
    · dsimp only at h
      split_ifs at h with hpos
      rw [Option.some.injEq] at h
      have hexec : (s.exec (.packet srcAddr pkt nowNs stackAddr callocSend callocRecv
          sent)).1.table = table.setSlot k (answered session nowNs sent) := by
        simp only [exec, whileRunning, hrun, if_true, handle, if_pos htype, onConnectReq, hfind,
          halloc, acceptConnect, SessionTable.setSessionAt, if_pos hpos, h]
        rfl
      rw [hexec]
      obtain ⟨-, hother⟩ := SessionTable.allocate_some halloc
      refine ⟨fun j hj => ?_, ?_⟩
      · rw [SessionTable.slot_setSlot_of_ne _ hj]
        exact hother j (by omega)
      · rcases table.slot_setSlot_self k (answered session nowNs sent) with hself | hself
        · rw [hself]
          show session.sendWin.letters = []
          exact letters_allocate halloc
        · rw [hself]
          decide
  | start | stop | send | recv | disconnectClient | drain | expire | retransmit | ack
  | heartbeat => exact absurd h (by simp [allocatedSlot])

/-- **Only a drain adds a message to a window.** -/
theorem letters_exec {e : ServerEvent} (hdrain : ∀ nowNs sent, e ≠ .drain nowNs sent)
    (halloc : s.allocatedSlot e = none) (j : ℕ) :
    ((s.exec e).1.table.slot j).sendWin.letters ⊆ (s.table.slot j).sendWin.letters := by
  have hmove := s.moves_exec e
  generalize hexec : s.exec e = r at hmove ⊢
  obtain ⟨s', out⟩ := r
  cases hmove with
  | idle | start | send | recv | noSession => exact List.Subset.refl _
  | stop =>
    show (s.stop.table.slot j).sendWin.letters ⊆ _
    unfold Server.stop
    split_ifs
    · exact List.Subset.refl _
    · exact letters_slot_foldl_free _ j s.table
  | kick clientId i => exact letters_slot_free s.table i j
  | accept => refine letters_slot_setSlot s.table _ _ ?_ j; exact List.Subset.refl _
  | reject srcAddr pkt nowNs stackAddr callocSend callocRecv sent table _ _ hnone =>
    dsimp only
    rw [SessionTable.allocate_none hnone j]
    exact List.Subset.refl _
  | enroll srcAddr pkt nowNs stackAddr callocSend callocRecv sent slotIdx session table htype hfind
      hsome =>
    -- a running server reports the slot, unless its index is negative and no slot is written
    have hrun : s.running = true := by
      by_contra hrun
      rw [exec, whileRunning, if_neg hrun] at hexec
      exact absurd (congrArg Prod.snd hexec) (by simp)
    have hneg : ¬ (0 ≤ slotIdx) := by
      intro hpos
      simp only [allocatedSlot, hrun, htype, hfind, and_self, if_true, hsome, if_pos hpos] at halloc
      exact absurd halloc (by simp)
    have hother := (SessionTable.allocate_some hsome).2 j (by omega)
    dsimp only
    rw [SessionTable.setSessionAt, if_neg hneg, hother]
    exact List.Subset.refl _
  | connectAck srcAddr pkt nowNs stackAddr callocSend callocRecv sent i =>
    refine letters_slot_setSlot s.table _ _ ?_ j
    rw [touched_eq]
    exact List.Subset.refl _
  | disconnect srcAddr pkt nowNs stackAddr callocSend callocRecv sent i =>
    refine List.Subset.trans (letters_slot_free _ i j) (letters_slot_setSlot s.table _ _ ?_ j)
    rw [touched_eq]
    exact List.Subset.refl _
  | process srcAddr pkt nowNs stackAddr callocSend callocRecv sent i =>
    refine letters_slot_setSlot s.table _ _ ?_ j
    rw [(processPacket_fields _ pkt nowNs sent).2.2.2.2.2, touched_eq]
    exact SendWindow.letters_onAck _ _ _ _ _
  | drainNone | drainDiscard | drainHold | drainPush => exact absurd rfl (hdrain _ _)
  | expire i => exact letters_slot_free s.table i j
  | retransmit i nowNs sent =>
    exact letters_slot_setSlot s.table _ _ (SendWindow.letters_retransmit _ _ _ _ _).1 j
  | ack => refine letters_slot_setSlot s.table _ _ ?_ j; exact List.Subset.refl _
  | heartbeat => refine letters_slot_setSlot s.table _ _ ?_ j; exact List.Subset.refl _

end Server

/-- The server with what is known of its messages: the number of occupants each slot has had, the
messages of `sendQueue` and `pendingItem`, and those pushed so far. -/
structure Tracked where
  server : Server
  occupants : ℕ → ℕ
  queued : List Letter
  held : Option Letter
  posted : List Posting

namespace Tracked

/-- A server that has not run. -/
def start (s : Server) : Tracked :=
  { server := s, occupants := fun _ => 0, queued := [], held := none, posted := [] }

/-- The present occupant of a slot, or its last one. -/
def ref (t : Tracked) (i : ℕ) : SessionRef := ⟨i, t.occupants i⟩

/-- The messages that wait. -/
def waiting (t : Tracked) : List Letter := t.held.toList ++ t.queued

/-- The message the drain loop takes next. -/
def next (t : Tracked) : Option Letter := t.held.or t.queued.head?

/-- The message an event adds to the queue. -/
def accepted (t : Tracked) : ServerEvent → List Letter
  | .send clientId mode data len =>
    if (t.server.send clientId mode data len).1 = 0 then
      [{ item := .ofSend clientId mode data len
         origin := (t.server.table.findById clientId).map t.ref }]
    else []
  | _ => []

/-- The message an event pushes into a window: a drain that sends something has pushed the message
it took. -/
def posting (t : Tracked) : ServerEvent → List Posting
  | .drain nowNs sent =>
    match t.next, (t.server.exec (.drain nowNs sent)).2 with
    | some x, [(_, pkt)] =>
      [{ origin := x.origin, target := t.ref x.item.clientId.toNat, seq := pkt.hdr.seqNum,
         message := x.item.message }]
    | _, _ => []
  | _ => []

/-- One event. The queue takes messages at its end and loses them at its front, and `pendingItem`
is the message a drain has taken. -/
def exec (t : Tracked) (e : ServerEvent) : Tracked :=
  let server := (t.server.exec e).1
  { server
    occupants :=
      match t.server.allocatedSlot e with
      | some k => Function.update t.occupants k (t.occupants k + 1)
      | none => t.occupants
    queued := keepLast server.sendQueue.contents.length (t.queued ++ t.accepted e)
    held := if server.pendingItem.isSome then t.next else none
    posted := t.posted ++ t.posting e }

/-- A sequence of events. -/
def run (t : Tracked) (es : List ServerEvent) : Tracked := es.foldl exec t

theorem run_server (t : Tracked) (es : List ServerEvent) :
    (t.run es).server = t.server.run es := by
  induction es generalizing t with
  | nil => rfl
  | cons e es ih => exact ih (t.exec e)

/-- No message waits for an earlier occupant of the slot that the event gives away. -/
def Clear (t : Tracked) (e : ServerEvent) : Prop :=
  ∀ k ∈ t.server.allocatedSlot e, ∀ x ∈ t.waiting, ∀ o ∈ x.origin, o.slot ≠ k

instance (t : Tracked) (e : ServerEvent) : Decidable (t.Clear e) :=
  inferInstanceAs (Decidable
    (∀ k ∈ t.server.allocatedSlot e, ∀ x ∈ t.waiting, ∀ o ∈ x.origin, o.slot ≠ k))

/-- A run in which every event is clear. -/
def ClearRun (t : Tracked) : List ServerEvent → Prop
  | [] => True
  | e :: es => t.Clear e ∧ (t.exec e).ClearRun es

instance decidableClearRun : ∀ (t : Tracked) (es : List ServerEvent), Decidable (t.ClearRun es)
  | _, [] => inferInstanceAs (Decidable True)
  | t, e :: es =>
    have := decidableClearRun (t.exec e) es
    inferInstanceAs (Decidable (t.Clear e ∧ (t.exec e).ClearRun es))

/-- What holds in every state of a clear run. -/
structure Inv (t : Tracked) : Prop where
  queue : t.server.sendQueue.Rep (t.queued.map Letter.item)
  pending : t.held.map Letter.item = t.server.pendingItem
  current : ∀ x ∈ t.waiting, ∀ o ∈ x.origin,
    o.slot = x.item.clientId.toNat ∧ o.occupant = t.occupants o.slot
  posted : ∀ r ∈ t.posted, ∀ o ∈ r.origin, r.target = o
  windows : ∀ i, ∀ x ∈ (t.server.table.slot i).sendWin.letters,
    ∃ r ∈ t.posted, r.target = t.ref i ∧ (r.seq, r.message) = x

/-! ### The queue -/

section Queue

variable {t : Tracked} {e : ServerEvent}

/-- The queue after an event, if it kept an end of its messages and of the new one. -/
theorem queue_exec {l : List MpmcItem} (hrep : (t.server.exec e).1.sendQueue.Rep l)
    (hl : l <:+ (t.queued ++ t.accepted e).map Letter.item) :
    (t.exec e).server.sendQueue.Rep ((t.exec e).queued.map Letter.item) := by
  have hlen : (t.server.exec e).1.sendQueue.contents.length = l.length := by
    rw [hrep.contents_eq]
  show (t.server.exec e).1.sendQueue.Rep ((keepLast _ _).map Letter.item)
  rw [hlen, map_keepLast hl]
  exact hrep

/-- The item held back after an event, if it is the one a drain takes. -/
theorem pending_exec (h : (t.server.exec e).1.pendingItem = none ∨
      (t.server.exec e).1.pendingItem = t.next.map Letter.item) :
    (t.exec e).held.map Letter.item = (t.exec e).server.pendingItem := by
  show (if (t.server.exec e).1.pendingItem.isSome then t.next else none).map Letter.item =
    (t.server.exec e).1.pendingItem
  rcases h with h | h
  · rw [h]
    rfl
  · rw [h]
    cases t.next <;> rfl

/-- An item held back stays the one a drain takes. -/
theorem Inv.pending_of_eq (ht : t.Inv)
    (h : (t.server.exec e).1.pendingItem = t.server.pendingItem) :
    (t.exec e).held.map Letter.item = (t.exec e).server.pendingItem := by
  refine pending_exec ?_
  rw [h, ← ht.pending]
  cases hheld : t.held with
  | none => exact Or.inl rfl
  | some x =>
    right
    rw [next, hheld]
    rfl

theorem Inv.queue_of_eq (ht : t.Inv) (hacc : t.accepted e = [])
    (h : (t.server.exec e).1.sendQueue = t.server.sendQueue) :
    (t.exec e).server.sendQueue.Rep ((t.exec e).queued.map Letter.item) := by
  refine queue_exec (h ▸ ht.queue) ?_
  rw [hacc, List.append_nil]

theorem Inv.queue_send (ht : t.Inv) (clientId : UInt32) (mode : UInt8) (data : List UInt8)
    (len : ℕ) :
    (t.exec (.send clientId mode data len)).server.sendQueue.Rep
      ((t.exec (.send clientId mode data len)).queued.map Letter.item) := by
  rcases t.server.send_cases clientId mode data len with ⟨hcode, hsame⟩ | ⟨htrim, hsend⟩
  · refine ht.queue_of_eq ?_ (by rw [Server.exec, hsame])
    rw [accepted, if_neg hcode]
  · obtain ⟨l', hrep, hsuf⟩ := ht.queue.pushBack_suffix htrim
    refine queue_exec (by rw [Server.exec, hsend]; exact hrep) ?_
    rw [accepted, hsend]
    cases hok : (t.server.sendQueue.pushBackLocked (.ofSend clientId mode data len)).1 with
    | true =>
      rw [hok] at hsuf
      simpa using hsuf
    | false =>
      rw [hok] at hsuf
      simpa using hsuf

/-- What a drain takes. -/
theorem Inv.takeItem (ht : t.Inv) :
    t.server.takeItem.1 = t.next.map Letter.item ∧
      t.server.takeItem.2.pendingItem = t.server.takeItem.1 ∧
      ∃ l, t.server.takeItem.2.sendQueue.Rep l ∧ l <:+ t.queued.map Letter.item := by
  have hp := ht.pending
  unfold Server.takeItem
  cases hheld : t.held with
  | some x =>
    rw [hheld, Option.map_some] at hp
    rw [← hp]
    refine ⟨?_, hp.symm, _, ht.queue, List.suffix_rfl⟩
    rw [next, hheld]
    rfl
  | none =>
    rw [hheld, Option.map_none] at hp
    rw [← hp]
    obtain ⟨h1, h2, -⟩ := ht.queue.pop
    refine ⟨?_, rfl, _, h2, List.tail_suffix _⟩
    rw [next, hheld, Option.none_or, ← List.head?_map]
    exact h1

theorem Inv.queue_drain (ht : t.Inv) (nowNs : UInt64) (sent : Bool) :
    (t.exec (.drain nowNs sent)).server.sendQueue.Rep
        ((t.exec (.drain nowNs sent)).queued.map Letter.item) ∧
      (t.exec (.drain nowNs sent)).held.map Letter.item =
        (t.exec (.drain nowNs sent)).server.pendingItem := by
  obtain ⟨htake, hpend, l, hrep, hl⟩ := ht.takeItem
  have hmove := t.server.moves_exec (.drain nowNs sent)
  have hacc : t.accepted (.drain nowNs sent) = [] := rfl
  have htaken : (t.server.exec (.drain nowNs sent)).1.sendQueue = t.server.takeItem.2.sendQueue →
      ((t.server.exec (.drain nowNs sent)).1.pendingItem = none ∨
        (t.server.exec (.drain nowNs sent)).1.pendingItem = t.server.takeItem.2.pendingItem) →
      (t.exec (.drain nowNs sent)).server.sendQueue.Rep
          ((t.exec (.drain nowNs sent)).queued.map Letter.item) ∧
        (t.exec (.drain nowNs sent)).held.map Letter.item =
          (t.exec (.drain nowNs sent)).server.pendingItem := by
    intro h1 h2
    refine ⟨queue_exec (h1 ▸ hrep) ?_, pending_exec ?_⟩
    · rw [hacc, List.append_nil]
      exact hl
    · rw [← htake, ← hpend]
      exact h2
  generalize hexec : t.server.exec (.drain nowNs sent) = r at hmove
  rw [hexec] at htaken
  obtain ⟨s', out⟩ := r
  cases hmove with
  | idle =>
    exact ⟨ht.queue_of_eq hacc (by rw [hexec]), ht.pending_of_eq (by rw [hexec])⟩
  | drainNone => exact htaken rfl (Or.inr rfl)
  | drainHold => exact htaken rfl (Or.inr rfl)
  | drainDiscard => exact htaken rfl (Or.inl rfl)
  | drainPush => exact htaken rfl (Or.inl rfl)

theorem Inv.queue_stop (ht : t.Inv) :
    (t.exec .stop).server.sendQueue.Rep ((t.exec .stop).queued.map Letter.item) ∧
      (t.exec .stop).held.map Letter.item = (t.exec .stop).server.pendingItem := by
  by_cases hrun : t.server.running = true
  · have hexec : (t.server.exec .stop).1.sendQueue =
        Server.emptyQueue (t.server.sendQueue.count + 1) t.server.sendQueue := by
      simp [Server.exec, Server.stop, hrun]
    have hpend : (t.server.exec .stop).1.pendingItem = none := by
      simp [Server.exec, Server.stop, hrun]
    refine ⟨queue_exec ?_ (List.nil_suffix), pending_exec (Or.inl hpend)⟩
    rw [hexec]
    exact Server.emptyQueue_rep ht.queue (by rw [ht.queue.count_eq]; omega)
  · have hexec : (t.server.exec .stop).1 = t.server := by
      simp [Server.exec, Server.stop, hrun]
    exact ⟨ht.queue_of_eq rfl (by rw [hexec]), ht.pending_of_eq (by rw [hexec])⟩

/-- **The messages followed are those of the queue and of `pendingItem`**, after every event. -/
theorem Inv.queue_step (ht : t.Inv) (e : ServerEvent) :
    (t.exec e).server.sendQueue.Rep ((t.exec e).queued.map Letter.item) ∧
      (t.exec e).held.map Letter.item = (t.exec e).server.pendingItem := by
  have heq := (t.server.moves_exec e).queue_eq
  cases e with
  | send clientId mode data len =>
    exact ⟨ht.queue_send clientId mode data len, ht.pending_of_eq heq⟩
  | stop => exact ht.queue_stop
  | drain nowNs sent => exact ht.queue_drain nowNs sent
  | start | recv | disconnectClient | packet | expire | retransmit | ack | heartbeat =>
    exact ⟨ht.queue_of_eq rfl heq.1, ht.pending_of_eq heq.2⟩

end Queue

/-! ### Origins -/

section Origins

variable {t : Tracked} {e : ServerEvent}

theorem mem_waiting_of_next {x : Letter} (h : t.next = some x) : x ∈ t.waiting := by
  unfold next at h
  rw [waiting, List.mem_append]
  cases hheld : t.held with
  | none =>
    rw [hheld, Option.none_or] at h
    exact Or.inr (List.mem_of_mem_head? h)
  | some y =>
    rw [hheld, Option.some_or, Option.some.injEq] at h
    exact Or.inl (by simp [h])

/-- What waits after an event waited before it or has just been accepted. -/
theorem mem_waiting_exec {x : Letter} (h : x ∈ (t.exec e).waiting) :
    x ∈ t.waiting ∨ x ∈ t.accepted e := by
  rcases List.mem_append.1 h with hheld | hqueued
  · left
    rw [Option.mem_toList] at hheld
    change (if (t.server.exec e).1.pendingItem.isSome then t.next else none) = some x at hheld
    split_ifs at hheld
    exact mem_waiting_of_next hheld
  · rcases List.mem_append.1 (mem_of_mem_keepLast hqueued) with hold | hnew
    · exact Or.inl (List.mem_append.2 (Or.inr hold))
    · exact Or.inr hnew

/-- An accepted message is for the present occupant of its slot. -/
theorem origin_of_accepted {x : Letter} (hx : x ∈ t.accepted e) {o : SessionRef}
    (ho : o ∈ x.origin) : o = t.ref x.item.clientId.toNat := by
  cases e with
  | send clientId mode data len =>
    simp only [accepted] at hx
    split_ifs at hx with hcode
    · rw [List.mem_singleton.1 hx] at ho ⊢
      obtain ⟨i, hi, rfl⟩ := Option.map_eq_some_iff.1 ho
      exact congrArg t.ref (SessionTable.findById_some hi).1
    · exact absurd hx List.not_mem_nil
  | start | stop | recv | disconnectClient | packet | drain | expire | retransmit | ack
  | heartbeat => exact absurd hx List.not_mem_nil

theorem occupants_exec_of_ne {j : ℕ} (h : ∀ k ∈ t.server.allocatedSlot e, j ≠ k) :
    (t.exec e).occupants j = t.occupants j := by
  show (match t.server.allocatedSlot e with
      | some k => Function.update t.occupants k (t.occupants k + 1)
      | none => t.occupants) j = t.occupants j
  cases halloc : t.server.allocatedSlot e with
  | none => rfl
  | some k => exact Function.update_of_ne (h k halloc) _ _

theorem Inv.current_step (ht : t.Inv) (hclear : t.Clear e) :
    ∀ x ∈ (t.exec e).waiting, ∀ o ∈ x.origin,
      o.slot = x.item.clientId.toNat ∧ o.occupant = (t.exec e).occupants o.slot := by
  intro x hx o ho
  rcases mem_waiting_exec hx with hold | hnew
  · obtain ⟨h1, h2⟩ := ht.current x hold o ho
    refine ⟨h1, h2.trans (occupants_exec_of_ne fun k hk => ?_).symm⟩
    exact hclear k hk x hold o ho
  · obtain rfl := origin_of_accepted hnew ho
    have hsend : t.server.allocatedSlot e = none := by
      cases e with
      | packet => exact absurd hnew List.not_mem_nil
      | start | stop | send | recv | disconnectClient | drain | expire | retransmit | ack
      | heartbeat => rfl
    refine ⟨rfl, (occupants_exec_of_ne fun k hk => ?_).symm⟩
    rw [hsend] at hk
    exact absurd hk (by simp)

theorem Inv.posted_step (ht : t.Inv) :
    ∀ r ∈ (t.exec e).posted, ∀ o ∈ r.origin, r.target = o := by
  intro r hr o ho
  rcases List.mem_append.1 hr with hold | hnew
  · exact ht.posted r hold o ho
  · unfold posting at hnew
    split at hnew
    · split at hnew
      · next x _ pkt hnext _ =>
        rw [List.mem_singleton.1 hnew] at ho ⊢
        obtain ⟨h1, h2⟩ := ht.current x (mem_waiting_of_next hnext) o ho
        obtain ⟨slot, occupant⟩ := o
        dsimp only at h1 h2
        rw [ref, ← h1, h2]
      · exact absurd hnew List.not_mem_nil
    · exact absurd hnew List.not_mem_nil

end Origins

/-! ### The windows -/

section Windows

variable {t : Tracked} {e : ServerEvent}

theorem ref_exec_of_ne {i : ℕ} (h : ∀ k ∈ t.server.allocatedSlot e, i ≠ k) :
    (t.exec e).ref i = t.ref i := by
  rw [ref, ref, occupants_exec_of_ne h]

/-- A message that was in the window is still accounted for. -/
theorem Inv.account (ht : t.Inv) {i : ℕ} (hi : ∀ k ∈ t.server.allocatedSlot e, i ≠ k)
    {x : UInt32 × Message} (hx : x ∈ (t.server.table.slot i).sendWin.letters) :
    ∃ r ∈ (t.exec e).posted, r.target = (t.exec e).ref i ∧ (r.seq, r.message) = x := by
  obtain ⟨r, hr, htarget, heq⟩ := ht.windows i x hx
  exact ⟨r, List.mem_append.2 (Or.inl hr), by rw [ref_exec_of_ne hi]; exact htarget, heq⟩

/-- The message a drain has pushed. -/
theorem Inv.posting_of_push (ht : t.Inv) {nowNs : UInt64} {sent : Bool} {item : MpmcItem}
    (htake : t.server.takeItem.1 = some item) {s' : Server} {addr : NetAddr} {pkt : Packet}
    (hexec : t.server.exec (.drain nowNs sent) = (s', [(addr, pkt)])) :
    ∃ r ∈ (t.exec (.drain nowNs sent)).posted,
      r.target = (t.exec (.drain nowNs sent)).ref item.clientId.toNat ∧ r.seq = pkt.hdr.seqNum ∧
        r.message = item.message := by
  have hnext := ht.takeItem.1
  rw [htake, eq_comm, Option.map_eq_some_iff] at hnext
  obtain ⟨x, hx, rfl⟩ := hnext
  have hposting : t.posting (.drain nowNs sent) = [⟨x.origin, t.ref x.item.clientId.toNat,
      pkt.hdr.seqNum, x.item.message⟩] := by
    simp only [posting, hx, hexec]
  refine ⟨⟨x.origin, t.ref x.item.clientId.toNat, pkt.hdr.seqNum, x.item.message⟩,
    List.mem_append.2 (Or.inr ?_), rfl, rfl, rfl⟩
  rw [hposting]
  exact List.mem_singleton_self _

theorem Inv.windows_step (ht : t.Inv) :
    ∀ i, ∀ x ∈ ((t.exec e).server.table.slot i).sendWin.letters,
      ∃ r ∈ (t.exec e).posted, r.target = (t.exec e).ref i ∧ (r.seq, r.message) = x := by
  intro i x hx
  change x ∈ ((t.server.exec e).1.table.slot i).sendWin.letters at hx
  cases halloc : t.server.allocatedSlot e with
  | some k =>
    obtain ⟨hother, hnew⟩ := t.server.exec_of_allocatedSlot halloc
    by_cases hik : i = k
    · rw [hik, hnew] at hx
      exact absurd hx List.not_mem_nil
    · rw [hother i hik] at hx
      refine ht.account (fun k' hk' => ?_) hx
      rw [halloc, Option.mem_some_iff] at hk'
      exact hk' ▸ hik
  | none =>
    have hnot : ∀ j, ∀ k ∈ t.server.allocatedSlot e, j ≠ k := by
      intro j k hk
      rw [halloc] at hk
      exact absurd hk (by simp)
    by_cases hdrain : ∀ nowNs sent, e ≠ .drain nowNs sent
    · exact ht.account (hnot i) (t.server.letters_exec hdrain halloc i hx)
    · push Not at hdrain
      obtain ⟨nowNs, sent, rfl⟩ := hdrain
      have hmove := t.server.moves_exec (.drain nowNs sent)
      generalize hexec : t.server.exec (.drain nowNs sent) = r at hmove hx
      obtain ⟨s', out⟩ := r
      cases hmove with
      | idle => exact ht.account (hnot i) hx
      | drainNone | drainHold =>
        dsimp only at hx
        rw [Server.takeItem_table] at hx
        exact ht.account (hnot i) hx
      | drainDiscard => exact ht.account (hnot i) hx
      | drainPush _ _ item k sendWin seq htake hfind hstate hcan hpush =>
        rcases t.server.table.slot_setSlot_cases k
            (Server.afterPush (t.server.table.slot k) sendWin item seq sent).1 i with
          heq | ⟨rfl, heq⟩
        · dsimp only at hx
          rw [heq] at hx
          exact ht.account (hnot i) hx
        · dsimp only at hx
          rw [heq] at hx
          rcases List.mem_cons.1 (SendWindow.letters_push hpush hx) with rfl | hold
          · obtain ⟨r, hr, htarget, hseq, hmsg⟩ := ht.posting_of_push htake hexec
            rw [← (SessionTable.findById_some hfind).1] at htarget
            refine ⟨r, hr, htarget, ?_⟩
            rw [hseq, hmsg]
            simp [mkPacket, MpmcItem.message]
          · exact ht.account (hnot i) hold

end Windows

/-- **Every clear event keeps the account.** -/
theorem Inv.step {t : Tracked} {e : ServerEvent} (ht : t.Inv) (hclear : t.Clear e) :
    (t.exec e).Inv where
  queue := (ht.queue_step e).1
  pending := (ht.queue_step e).2
  current := ht.current_step hclear
  posted := ht.posted_step
  windows := ht.windows_step

theorem Inv.run {es : List ServerEvent} : ∀ {t : Tracked}, t.Inv → t.ClearRun es →
    (t.run es).Inv := by
  induction es with
  | nil => intro t ht _; exact ht
  | cons e es ih => intro t ht hclear; exact ih (ht.step hclear.1) hclear.2

/-! ### Transmission -/

/-- **A transmitted message has been pushed for the session it is transmitted to.** -/
theorem Inv.transmitted {t : Tracked} (ht : t.Inv) {e : ServerEvent} {addr : NetAddr}
    {pkt : Packet} (hout : (addr, pkt) ∈ (t.server.exec e).2)
    (hdata : pkt.hdr.packetType = PktType.data.code) :
    ∃ i, addr = (t.server.table.slot i).addr ∧
      ∃ r ∈ (t.exec e).posted, r.target = (t.exec e).ref i ∧ r.seq = pkt.hdr.seqNum ∧
        r.message = pkt.message := by
  have hmove := t.server.moves_exec e
  generalize hexec : t.server.exec e = r at hmove hout
  obtain ⟨s', out⟩ := r
  -- the packets of another type
  have hother : ∀ {type : PktType} {mode : UInt8} {id seq : UInt32} {ack : UInt32 × UInt32}
      {payload : List UInt8} {len : ℕ}, type ≠ .data →
      pkt ≠ mkPacket type mode id seq ack payload len := by
    rintro type mode id seq ack payload len htype rfl
    exact htype (PktType.code_injective hdata)
  cases hmove with
  | idle | start | stop | send | recv | connectAck | disconnect | drainNone | drainDiscard
  | drainHold | expire => exact absurd hout List.not_mem_nil
  | kick | accept | reject | enroll | ack | heartbeat =>
    exact absurd (Prod.mk.inj (List.mem_singleton.1 hout)).2 (hother (by decide))
  | noSession srcAddr pkt' =>
    have hreset : (addr, pkt) ∈ Server.resetReply srcAddr pkt'.hdr := hout
    unfold Server.resetReply at hreset
    split_ifs at hreset
    · exact absurd (Prod.mk.inj (List.mem_singleton.1 hreset)).2 (hother (by decide))
    · exact absurd hreset List.not_mem_nil
  | process srcAddr pkt' nowNs stackAddr callocSend callocRecv sent i =>
    have hack : (addr, pkt) ∈ (Server.processPacket (Server.touched (t.server.table.slot i) nowNs)
      pkt' nowNs sent).2.2 := hout
    unfold Server.processPacket at hack
    dsimp only at hack
    by_cases hbeat : pkt'.hdr.packetType = PktType.heartbeat.code
    · simp only [if_pos hbeat] at hack
      exact absurd (Prod.mk.inj (List.mem_singleton.1 hack)).2 (hother (by decide))
    · simp only [if_neg hbeat] at hack
      exact absurd hack List.not_mem_nil
  | drainPush nowNs sent item i sendWin seq htake hfind hstate hcan hpush =>
    obtain ⟨rfl, rfl⟩ := Prod.mk.inj (List.mem_singleton.1 hout)
    obtain ⟨r, hr, htarget, hseq, hmsg⟩ := ht.posting_of_push htake hexec
    rw [← (SessionTable.findById_some hfind).1] at htarget
    refine ⟨i, rfl, r, hr, htarget, hseq, ?_⟩
    rw [hmsg]
    simp [mkPacket, MpmcItem.message, Packet.message]
  | retransmit i nowNs sent hstate =>
    obtain ⟨p, hp, heq⟩ := List.mem_map.1 hout
    obtain ⟨rfl, rfl⟩ := Prod.mk.inj heq
    have hletter := (SendWindow.letters_retransmit (t.server.table.slot i).sendWin
      (t.server.table.slot i).rtt nowNs (t.server.table.slot i).sessionId
      (t.server.table.slot i).recvWin.getAckInfo).2 p hp
    obtain ⟨r, hr, htarget, hseq⟩ := ht.account (e := .retransmit i nowNs sent)
      (fun k hk => absurd hk (by simp [Server.allocatedSlot])) hletter
    exact ⟨i, rfl, r, hr, htarget, (Prod.mk.inj hseq).1, (Prod.mk.inj hseq).2⟩

theorem letters_slot_init {maxClients windowSize : UInt32} {policy : MaxClientsPolicy}
    {callocTable : Bool} {callocSend callocRecv : ℕ → Bool} {table : SessionTable}
    (h : SessionTable.init maxClients policy windowSize callocTable callocSend callocRecv =
      some table) (i : ℕ) : (table.slot i).sendWin.letters = [] := by
  unfold SessionTable.init at h
  split_ifs at h
  rw [Option.some.injEq] at h
  rw [← h]
  by_cases hi : i < maxClients.toNat
  · rw [SessionTable.slot, List.getD_eq_getElem _ _ (by simpa using hi), List.getElem_map]
    exact SendWindow.letters_init rfl
  · rw [SessionTable.slot, List.getD_eq_default _ _ (by simpa using hi)]
    decide

theorem start_inv {config : ServerConfig} {a : CreateAllocs} {s : Server}
    (h : Server.create config a = some s) : (start s).Inv := by
  obtain ⟨sendQueue, _, table, hqueue, -, htable, rfl⟩ := Server.create_some h
  refine
    { queue := (MpmcQueue.init_rep hqueue).1
      pending := rfl
      current := fun x hx => absurd hx List.not_mem_nil
      posted := fun r hr => absurd hr List.not_mem_nil
      windows := fun i x hx => ?_ }
  change x ∈ (table.slot i).sendWin.letters at hx
  rw [letters_slot_init htable i] at hx
  exact absurd hx List.not_mem_nil

end Tracked

/-- **A message goes only to the session it was addressed to**, in every run in which no slot is
given to a new session while messages for an earlier occupant wait. Whatever is pushed into the
window of a session was accepted for this session, or while nobody occupied the slot; and a DATA
packet, sent or sent again, carries a message that was pushed for the session it is sent to. -/
theorem message_stays_with_session {config : ServerConfig} {a : CreateAllocs} {s₀ : Server}
    (hcreate : Server.create config a = some s₀) {es : List ServerEvent}
    (hclear : (Tracked.start s₀).ClearRun es) {t : Tracked}
    (ht : (Tracked.start s₀).run es = t) :
    (∀ r ∈ t.posted, ∀ o, r.origin = some o → r.target = o) ∧
      ∀ e addr pkt, (addr, pkt) ∈ (t.server.exec e).2 →
        pkt.hdr.packetType = PktType.data.code →
        ∃ i, addr = (t.server.table.slot i).addr ∧
          ∃ r ∈ (t.exec e).posted, r.target = (t.exec e).ref i ∧
            (∀ o, r.origin = some o → r.target = o) ∧
            r.seq = pkt.hdr.seqNum ∧ r.message = pkt.message := by
  have hinv : t.Inv := ht ▸ (Tracked.start_inv hcreate).run hclear
  refine ⟨hinv.posted, fun e addr pkt hout hdata => ?_⟩
  obtain ⟨i, haddr, r, hr, htarget, hseq, hmsg⟩ := hinv.transmitted hout hdata
  exact ⟨i, haddr, r, hr, htarget, hinv.posted_step r hr, hseq, hmsg⟩

namespace Server

/-- A client connects from the first address and the application sends it a message. -/
def sendToFirst : List ServerEvent :=
  [.start, connectFrom 0,
    .packet (.inet 0 0) (barePacket .connectAck 1 0) 2 0 true true true, .send 0 3 [7] 1]

/-- The first client is disconnected and another takes its slot before the worker drains. -/
def reuseSlot : List ServerEvent :=
  sendToFirst ++
    [.disconnectClient 0, connectFrom 1,
      .packet (.inet 0 1) (barePacket .connectAck 1 0) 3 0 true true true]

end Server

/-- Drained at once, the message goes to its session. -/
theorem message_stays_with_session_of_one :
    ∃ s₀, Server.create (Server.tableConfig 1) CreateAllocs.allOk = some s₀ ∧
      (∀ r ∈ ((Tracked.start s₀).run (Server.sendToFirst ++ [.drain 4 true])).posted,
        ∀ o, r.origin = some o → r.target = o) ∧
      ((Tracked.start s₀).run (Server.sendToFirst ++ [.drain 4 true])).posted.map Posting.origin =
        [some ⟨0, 1⟩] := by
  have hsome : (Server.create (Server.tableConfig 1) CreateAllocs.allOk).isSome = true := by
    decide +kernel
  have hval : (Server.create (Server.tableConfig 1) CreateAllocs.allOk).map (fun s =>
      (decide ((Tracked.start s).ClearRun (Server.sendToFirst ++ [.drain 4 true])),
        ((Tracked.start s).run (Server.sendToFirst ++ [.drain 4 true])).posted.map
          Posting.origin)) = some (true, [some ⟨0, 1⟩]) := by
    decide +kernel
  obtain ⟨s₀, hs₀⟩ := Option.isSome_iff_exists.1 hsome
  rw [hs₀, Option.map_some, Option.some.injEq, Prod.mk.injEq, decide_eq_true_eq] at hval
  exact ⟨s₀, hs₀, (message_stays_with_session hs₀ hval.1 rfl).1, hval.2⟩

/-- **A message accepted for one session is sent to another.** The queued item names slot 0 only:
after a kick and a new connection the drain pushes it into the window of the second occupant and
transmits it to the second client's address. -/
theorem message_changes_session :
    ∃ s₀, Server.create (Server.tableConfig 1) CreateAllocs.allOk = some s₀ ∧
      ∃ t, (Tracked.start s₀).run Server.reuseSlot = t ∧
        (∃ r ∈ (t.exec (.drain 4 true)).posted, r.origin = some ⟨0, 1⟩ ∧ r.target = ⟨0, 2⟩ ∧
          r.message = ⟨3, 1, [7]⟩) ∧
        (t.server.exec (.drain 4 true)).2.map (fun x => (x.1, x.2.message)) =
          [(.inet 0 1, ⟨3, 1, [7]⟩)] := by
  have hsome : (Server.create (Server.tableConfig 1) CreateAllocs.allOk).isSome = true := by
    decide +kernel
  have hval : (Server.create (Server.tableConfig 1) CreateAllocs.allOk).map (fun s =>
      ((((Tracked.start s).run Server.reuseSlot).exec (.drain 4 true)).posted.map
        (fun r => (r.origin, r.target, r.message)),
      (((Tracked.start s).run Server.reuseSlot).server.exec (.drain 4 true)).2.map
        (fun x => (x.1, x.2.message)))) =
      some ([(some ⟨0, 1⟩, ⟨0, 2⟩, ⟨3, 1, [7]⟩)], [(.inet 0 1, ⟨3, 1, [7]⟩)]) := by
    decide +kernel
  obtain ⟨s₀, hs₀⟩ := Option.isSome_iff_exists.1 hsome
  rw [hs₀, Option.map_some, Option.some.injEq, Prod.mk.injEq] at hval
  refine ⟨s₀, hs₀, _, rfl, ?_, hval.2⟩
  have hmem : (some ⟨0, 1⟩, ⟨0, 2⟩, ⟨3, 1, [7]⟩) ∈
      (((Tracked.start s₀).run Server.reuseSlot).exec (.drain 4 true)).posted.map
        (fun r => (r.origin, r.target, r.message)) := by
    rw [hval.1]
    exact List.mem_singleton_self _
  obtain ⟨r, hr, heq⟩ := List.mem_map.1 hmem
  rw [Prod.mk.injEq, Prod.mk.injEq] at heq
  exact ⟨r, hr, heq⟩

end Rel4u
