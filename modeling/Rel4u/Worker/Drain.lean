import Rel4u.Server.Address
import Rel4u.Client.Reconnect

/-!
# Draining the send queues

Both workers move messages from `sendQueue` to a send window. The client's loop tests the window
and then pops; the server's pops first, since the item names the window, and holds an item that has
to wait in `pendingItem`. Neither loop looks at the code that `push` returns: a message whose push
failed would be gone.

`DrainLog` and `ClientLog` run the endpoints, unchanged, and write down what their drains take and
how each turn ends. Every queued message is short enough for a slot, and a window that can send
takes every short message, so no push fails (`drain_loses_nothing`).
-/

namespace Rel4u

/-! ### The server -/

/-- The slot that an item designates, if the session in it is connected. -/
def Server.target (s : Server) (item : MpmcItem) : Option ℕ :=
  (s.table.findById item.clientId).filter fun i => decide ((s.table.slot i).state = .connected)

/-- A turn of the server's drain loop that is done with its item. -/
structure DrainTurn where
  before : Server
  nowNs : UInt64
  item : MpmcItem
  after : Server

namespace DrainTurn

/-- The item has been pushed into the window of slot `i`. -/
def Pushed (t : DrainTurn) (i : ℕ) : Prop :=
  t.before.target t.item = some i ∧
    ∃ seq, (t.before.table.slot i).sendWin.push t.item.mode t.item.data t.item.len.toNat t.nowNs =
      .ok ((t.after.table.slot i).sendWin, seq)

/-- The item designates no connected session, and the turn changes none. -/
def Discarded (t : DrainTurn) : Prop :=
  t.before.target t.item = none ∧ t.after.table = t.before.table

end DrainTurn

namespace Server

/-- The message an event adds to the queue. -/
def enqueued (s : Server) : ServerEvent → Option MpmcItem
  | .send clientId mode data len =>
    if (s.send clientId mode data len).1 = 0 then
      some (.ofSend clientId mode data len)
    else none
  | _ => none

/-- The message an event pops from the queue. -/
def popped (s : Server) : ServerEvent → Option MpmcItem
  | .drain _ _ =>
    if s.running ∧ s.pendingItem = none then s.sendQueue.tryPop.1 else none
  | _ => none

/-- The turn of the drain loop that an event is, unless it ends with the item held. -/
def drainTurn (s : Server) : ServerEvent → Option DrainTurn
  | .drain nowNs sent =>
    match s.running, s.takeItem.1, (s.exec (.drain nowNs sent)).1.pendingItem with
    | true, some item, none =>
      some { before := s, nowNs := nowNs, item := item, after := (s.exec (.drain nowNs sent)).1 }
    | _, _, _ => none
  | _ => none

/-- Every message that waits is short. -/
structure Stocked (s : Server) : Prop where
  queue : s.sendQueue.Short
  pending : ∀ x ∈ s.pendingItem, x.len.toNat ≤ maxPayloadSize

section Stocked

variable {s : Server}

theorem create_stocked {config : ServerConfig} {a : CreateAllocs} (h : create config a = some s) :
    s.Stocked := by
  obtain ⟨sendQueue, recvQueue, table, hsend, -, -, rfl⟩ := create_some h
  exact ⟨⟨[], (MpmcQueue.init_rep hsend).1, by simp⟩, by simp⟩

/-- A turn takes a short item, and holds it while it works on it. -/
theorem Stocked.takeItem (hs : s.Stocked) :
    s.takeItem.2.Stocked ∧ s.takeItem.2.pendingItem = s.takeItem.1 := by
  unfold Server.takeItem
  cases hp : s.pendingItem with
  | some item => exact ⟨hs, hp⟩
  | none =>
    obtain ⟨h1, h2⟩ := hs.queue.pop
    exact ⟨⟨h1, h2⟩, rfl⟩

theorem drainStep_none (h : s.takeItem.1 = none) (nowNs : UInt64) (sent : Bool) :
    (s.drainStep nowNs sent).2.1 = s.takeItem.2 := by
  unfold drainStep
  split
  · next htake => rw [htake]
  · next htake =>
    rw [htake] at h
    exact absurd h (by simp)

theorem drainStep_some {item : MpmcItem} (h : s.takeItem.1 = some item) (nowNs : UInt64)
    (sent : Bool) : s.drainStep nowNs sent = s.takeItem.2.drainItem item nowNs sent := by
  unfold drainStep
  split
  · next htake =>
    rw [htake] at h
    exact absurd h (by simp)
  · next htake =>
    rw [htake] at h ⊢
    rw [Option.some.inj h]

theorem Stocked.stop (hs : s.Stocked) : s.stop.Stocked := by
  unfold Server.stop
  split_ifs
  · exact hs
  · obtain ⟨l, hl, -⟩ := hs.queue
    have hempty := emptyQueue_rep hl (Nat.lt_succ_of_le hl.count_eq.ge)
    exact ⟨⟨[], hempty, by simp⟩, by simp⟩

theorem Stocked.moves (hs : s.Stocked) {e : ServerEvent} {s' : Server}
    {out : List (NetAddr × Packet)} (h : s.Moves e s' out) : s'.Stocked := by
  cases h with
  | idle => exact hs
  | send => exact ⟨hs.queue.pushBack _, hs.pending⟩
  | stop => exact hs.stop
  | drainNone | drainHold => exact hs.takeItem.1
  | drainDiscard | drainPush => exact ⟨hs.takeItem.1.queue, by simp⟩
  | start | recv | kick | accept | reject | enroll | noSession | connectAck | disconnect | process
  | expire | retransmit | ack | heartbeat => exact ⟨hs.queue, hs.pending⟩

/-- **Every run keeps the waiting messages short.** -/
theorem stocked_run {config : ServerConfig} {a : CreateAllocs} {s₀ : Server}
    (h : create config a = some s₀) (es : List ServerEvent) : (s₀.run es).Stocked :=
  run_induction (fun _ _ _ _ _ hs hm => hs.moves hm) (create_stocked h)

/-- What a turn takes is what was held or else is popped. -/
theorem Stocked.take_custody (hs : s.Stocked) (hrun : s.running = true) (nowNs : UInt64)
    (sent : Bool) :
    s.pendingItem.toList ++ (s.popped (.drain nowNs sent)).toList = s.takeItem.1.toList ∧
      (s.popped (.drain nowNs sent)).toList ++ s.takeItem.2.sendQueue.contents =
        s.sendQueue.contents := by
  unfold Server.takeItem popped
  cases hp : s.pendingItem with
  | some item => simp
  | none =>
    obtain ⟨l, hl, -⟩ := hs.queue
    obtain ⟨h1, h2, -⟩ := hl.pop
    rw [if_pos ⟨hrun, rfl⟩]
    refine ⟨rfl, ?_⟩
    show s.sendQueue.popHeadLocked.1.toList ++ s.sendQueue.popHeadLocked.2.contents = _
    rw [h1, h2.contents_eq, hl.contents_eq]
    cases l <;> rfl

/-! ### A turn of the loop, with its item -/

variable {item : MpmcItem} {i : ℕ}

theorem target_eq_some : s.target item = some i ↔
    s.table.findById item.clientId = some i ∧ (s.table.slot i).state = .connected := by
  rw [target, Option.filter_eq_some_iff, decide_eq_true_eq]

theorem drainItem_discard (h : s.target item = none) (nowNs : UInt64) (sent : Bool) :
    s.drainItem item nowNs sent = (true, { s with pendingItem := none }, []) := by
  unfold drainItem
  cases hfind : s.table.findById item.clientId with
  | none => rfl
  | some i =>
    have hstate : (s.table.slot i).state ≠ .connected := fun hstate => by
      rw [target_eq_some.2 ⟨hfind, hstate⟩] at h
      exact absurd h (by simp)
    exact if_neg hstate

theorem drainItem_hold (h : s.target item = some i)
    (hcan : (s.table.slot i).sendWin.canSend = false) (nowNs : UInt64) (sent : Bool) :
    s.drainItem item nowNs sent = (false, s, []) := by
  obtain ⟨hfind, hstate⟩ := target_eq_some.1 h
  simp only [drainItem, hfind, if_pos hstate, hcan]
  rfl

theorem drainItem_push (h : s.target item = some i)
    (hcan : (s.table.slot i).sendWin.canSend = true) {nowNs : UInt64} {sendWin : SendWindow}
    {seq : UInt32} (hpush : (s.table.slot i).sendWin.push item.mode item.data item.len.toNat nowNs =
      .ok (sendWin, seq)) (sent : Bool) :
    (s.drainItem item nowNs sent).2.1 =
      { s with
        table := s.table.setSlot i (afterPush (s.table.slot i) sendWin item seq sent).1
        pendingItem := none } := by
  obtain ⟨hfind, hstate⟩ := target_eq_some.1 h
  simp only [drainItem, hfind, if_pos hstate, if_pos hcan, hpush]
  rfl

/-- **How a turn ends**: the item is held; or the turn is done with it, and has pushed it or has
found no connected session. -/
theorem drainItem_cases (s : Server) (hshort : item.len.toNat ≤ maxPayloadSize) (nowNs : UInt64)
    (sent : Bool) :
    (s.drainItem item nowNs sent).2.1 = s ∨
      ((s.drainItem item nowNs sent).2.1.pendingItem = none ∧
        (s.drainItem item nowNs sent).2.1.sendQueue = s.sendQueue ∧
        ((∃ i, DrainTurn.Pushed ⟨s, nowNs, item, (s.drainItem item nowNs sent).2.1⟩ i) ∨
          DrainTurn.Discarded ⟨s, nowNs, item, (s.drainItem item nowNs sent).2.1⟩)) := by
  cases htarget : s.target item with
  | none =>
    rw [drainItem_discard htarget]
    exact Or.inr ⟨rfl, rfl, Or.inr ⟨htarget, rfl⟩⟩
  | some i =>
    cases hcan : (s.table.slot i).sendWin.canSend with
    | false =>
      rw [drainItem_hold htarget hcan]
      exact Or.inl rfl
    | true =>
      obtain ⟨⟨sendWin, seq⟩, hpush⟩ := SendWindow.exists_push_of_canSend hshort hcan item.mode
        item.data nowNs
      rw [drainItem_push htarget hcan hpush]
      refine Or.inr ⟨rfl, rfl, Or.inl ⟨i, htarget, seq, ?_⟩⟩
      have hactive := (SessionTable.findById_some (target_eq_some.1 htarget).1).2
      rw [SessionTable.slot_setSlot _ (SessionTable.lt_of_active hactive), if_pos rfl]
      exact hpush

end Stocked

end Server

/-- A server with what its drains have done since some state: the messages that have entered the
queue, those popped from it, and the turns that were done with their item, each in order. -/
structure DrainLog where
  server : Server
  enqueued : List MpmcItem
  popped : List MpmcItem
  turns : List DrainTurn

namespace DrainLog

/-- The empty log of a state. -/
def start (s : Server) : DrainLog := { server := s, enqueued := [], popped := [], turns := [] }

/-- One event. -/
def exec (r : DrainLog) (e : ServerEvent) : DrainLog :=
  { server := (r.server.exec e).1
    enqueued := r.enqueued ++ (r.server.enqueued e).toList
    popped := r.popped ++ (r.server.popped e).toList
    turns := r.turns ++ (r.server.drainTurn e).toList }

/-- A sequence of events. -/
def run (r : DrainLog) (es : List ServerEvent) : DrainLog := es.foldl exec r

theorem run_server (r : DrainLog) (es : List ServerEvent) :
    (r.run es).server = r.server.run es := by
  induction es generalizing r with
  | nil => rfl
  | cons e es ih => exact ih (r.exec e)

/-- The messages pushed for slot `i`, in the order of the pushes. -/
def pushedFor (r : DrainLog) (i : ℕ) : List MpmcItem :=
  (r.turns.filter fun t => decide (t.before.target t.item = some i)).map DrainTurn.item

/-- **The account of a log that was started in `s`.** -/
structure Balanced (s : Server) (r : DrainLog) : Prop where
  /-- What was held and what has been popped since is done with, up to the item held now. -/
  custody : s.pendingItem.toList ++ r.popped =
    r.turns.map DrainTurn.item ++ r.server.pendingItem.toList
  /-- Each turn pushed its item, or discarded it for want of a connected session. -/
  turns : ∀ t ∈ r.turns, (∃ i, t.Pushed i) ∨ t.Discarded
  /-- Items are popped in the order of the queue. -/
  order : (r.popped ++ r.server.sendQueue.contents).Sublist
    (s.sendQueue.contents ++ r.enqueued)

section Step

variable {s : Server} {r : DrainLog}

theorem balanced_start (s : Server) : Balanced s (start s) where
  custody := by simp [start]
  turns := by simp [start]
  order := by simp [start]

/-- An event that leaves the queue and the item held alone. -/
theorem Balanced.of_eq (hr : Balanced s r) {e : ServerEvent}
    (henq : r.server.enqueued e = none) (hpop : r.server.popped e = none)
    (hturn : r.server.drainTurn e = none)
    (hq : (r.server.exec e).1.sendQueue = r.server.sendQueue)
    (hp : (r.server.exec e).1.pendingItem = r.server.pendingItem) : Balanced s (r.exec e) := by
  have h : r.exec e = { r with server := (r.server.exec e).1 } := by
    simp [exec, henq, hpop, hturn]
  rw [h]
  refine ⟨?_, hr.turns, ?_⟩
  · rw [hp]
    exact hr.custody
  · rw [hq]
    exact hr.order

/-- A message that enters goes to the end; the queue may drop from its front to make room. -/
theorem Balanced.send (hr : Balanced s r) (hs : r.server.Stocked) (clientId : UInt32)
    (mode : UInt8) (data : List UInt8) (len : ℕ) :
    Balanced s (r.exec (.send clientId mode data len)) := by
  rcases r.server.send_cases clientId mode data len with ⟨hcode, hsame⟩ | ⟨htrim, hsend⟩
  · refine hr.of_eq ?_ rfl rfl ?_ ?_
    · rw [Server.enqueued, if_neg hcode]
    · rw [Server.exec, hsame]
    · rw [Server.exec, hsame]
  · obtain ⟨l, hl, -⟩ := hs.queue
    obtain ⟨l', hl', hsuf⟩ := hl.pushBack_suffix htrim
    have henq : l'.Sublist (l ++ (r.server.enqueued (.send clientId mode data len)).toList) := by
      rw [Server.enqueued, hsend]
      cases hok : (r.server.sendQueue.pushBackLocked (.ofSend clientId mode data len)).1 with
      | true =>
        rw [hok] at hsuf
        simpa using hsuf.sublist
      | false =>
        rw [hok] at hsuf
        simpa using hsuf.sublist
    have horder := hr.order
    rw [hl.contents_eq] at horder
    refine ⟨?_, ?_, ?_⟩
    · have hpend : (r.server.exec (.send clientId mode data len)).1.pendingItem =
          r.server.pendingItem := by rw [Server.exec, hsend]
      simpa [exec, Server.popped, Server.drainTurn, hpend] using hr.custody
    · simpa [exec, Server.drainTurn] using hr.turns
    · have hcontents :
          (r.server.exec (.send clientId mode data len)).1.sendQueue.contents = l' := by
        rw [Server.exec, hsend]
        exact hl'.contents_eq
      have h1 := henq.append_left r.popped
      have h2 := horder.append_right (r.server.enqueued (.send clientId mode data len)).toList
      rw [List.append_assoc, List.append_assoc] at h2
      simp only [exec, Server.popped, Option.toList_none, List.append_nil, hcontents]
      exact h1.trans h2

/-- A turn of the loop, given what becomes of the item it takes. -/
theorem Balanced.drain_of (hr : Balanced s r) (hs : r.server.Stocked)
    (hrun : r.server.running = true) {nowNs : UInt64} {sent : Bool}
    (hq : (r.server.exec (.drain nowNs sent)).1.sendQueue = r.server.takeItem.2.sendQueue)
    (hitem : ((r.server.drainTurn (.drain nowNs sent)).map DrainTurn.item).toList ++
      (r.server.exec (.drain nowNs sent)).1.pendingItem.toList = r.server.takeItem.1.toList)
    (hturn : ∀ t ∈ r.server.drainTurn (.drain nowNs sent), (∃ i, t.Pushed i) ∨ t.Discarded) :
    Balanced s (r.exec (.drain nowNs sent)) := by
  obtain ⟨htake, hcontents⟩ := hs.take_custody hrun nowNs sent
  refine ⟨?_, ?_, ?_⟩
  · have hmap : ((r.server.drainTurn (.drain nowNs sent)).toList).map DrainTurn.item =
        ((r.server.drainTurn (.drain nowNs sent)).map DrainTurn.item).toList := by
      cases r.server.drainTurn (.drain nowNs sent) <;> rfl
    simp only [exec]
    rw [← List.append_assoc, hr.custody, List.append_assoc, htake, List.map_append, hmap,
      List.append_assoc, hitem]
  · intro t ht
    rcases List.mem_append.1 ht with ht | ht
    · exact hr.turns t ht
    · exact hturn t (Option.mem_toList.1 ht)
  · have henq : r.server.enqueued (.drain nowNs sent) = none := rfl
    simp only [exec, hq, henq, Option.toList_none, List.append_nil]
    rw [List.append_assoc, hcontents]
    exact hr.order

/-- **A turn of the drain loop keeps the account.** -/
theorem Balanced.drain (hr : Balanced s r) (hs : r.server.Stocked) (nowNs : UInt64) (sent : Bool) :
    Balanced s (r.exec (.drain nowNs sent)) := by
  cases hrun : r.server.running with
  | false =>
    have hexec : (r.server.exec (.drain nowNs sent)).1 = r.server := by
      simp [Server.exec, Server.whileRunning, hrun]
    refine hr.of_eq rfl ?_ ?_ (by rw [hexec]) (by rw [hexec])
    · simp [Server.popped, hrun]
    · simp [Server.drainTurn, hrun]
  | true =>
    have hexec : (r.server.exec (.drain nowNs sent)).1 = (r.server.drainStep nowNs sent).2.1 := by
      simp [Server.exec, Server.whileRunning, hrun]
    have hpend := hs.takeItem.2
    cases htake : r.server.takeItem.1 with
    | none =>
      have hafter : (r.server.exec (.drain nowNs sent)).1 = r.server.takeItem.2 := by
        rw [hexec, Server.drainStep_none htake]
      have hturn : r.server.drainTurn (.drain nowNs sent) = none := by
        simp [Server.drainTurn, hrun, htake]
      refine hr.drain_of hs hrun (by rw [hafter]) ?_ (by simp [hturn])
      rw [hturn, hafter, hpend]
      rfl
    | some item =>
      rw [htake] at hpend
      rw [Server.drainStep_some htake] at hexec
      rcases r.server.takeItem.2.drainItem_cases (hs.takeItem.1.pending item hpend) nowNs sent with
        hafter | ⟨hnone, hq, hcase⟩
      · rw [← hexec] at hafter
        have hturn : r.server.drainTurn (.drain nowNs sent) = none := by
          simp [Server.drainTurn, hrun, htake, hafter, hpend]
        refine hr.drain_of hs hrun (by rw [hafter]) ?_ (by simp [hturn])
        rw [hturn, hafter, hpend, htake]
        rfl
      · rw [← hexec] at hnone hq hcase
        have hturn : r.server.drainTurn (.drain nowNs sent) =
            some ⟨r.server, nowNs, item, (r.server.exec (.drain nowNs sent)).1⟩ := by
          simp [Server.drainTurn, hrun, htake, hnone]
        refine hr.drain_of hs hrun hq ?_ ?_
        · rw [hturn, hnone, htake]
          rfl
        · intro t ht
          rw [hturn, Option.mem_some] at ht
          -- the table is the same before and after the pop
          simp only [DrainTurn.Pushed, DrainTurn.Discarded, Server.target,
            r.server.takeItem_table] at hcase
          exact ht ▸ hcase

/-- **Every event but `stop` keeps the account.** -/
theorem Balanced.step (hr : Balanced s r) (hs : r.server.Stocked) {e : ServerEvent}
    (he : e ≠ .stop) : Balanced s (r.exec e) := by
  have heq := (r.server.moves_exec e).queue_eq
  cases e with
  | stop => exact absurd rfl he
  | send clientId mode data len => exact hr.send hs clientId mode data len
  | drain nowNs sent => exact hr.drain hs nowNs sent
  | start | recv | disconnectClient | packet | expire | retransmit | ack | heartbeat =>
    exact hr.of_eq rfl rfl rfl heq.1 heq.2

/-- **Every run without a `stop` keeps the account.** -/
theorem Balanced.run {es : List ServerEvent} (he : ∀ e ∈ es, e ≠ .stop) :
    ∀ {r : DrainLog}, Balanced s r → r.server.Stocked → Balanced s (r.run es) := by
  induction es with
  | nil => exact fun hr _ => hr
  | cons e es ih =>
    intro r hr hs
    exact ih (fun e' he' => he e' (List.mem_cons_of_mem e he'))
      (hr.step hs (he e List.mem_cons_self)) (hs.moves (r.server.moves_exec e))

/-- The messages pushed for a slot keep the order they had. -/
theorem Balanced.pushedFor_sublist (hr : Balanced s r) (i : ℕ) :
    (r.pushedFor i).Sublist
      (s.pendingItem.toList ++ (s.sendQueue.contents ++ r.enqueued)) := by
  have h1 : (r.pushedFor i).Sublist (r.turns.map DrainTurn.item) := List.filter_sublist.map _
  have h2 : (r.turns.map DrainTurn.item).Sublist (s.pendingItem.toList ++ r.popped) := by
    rw [hr.custody]
    exact List.sublist_append_left _ _
  have h3 := ((List.sublist_append_left r.popped _).trans hr.order).append_left
    s.pendingItem.toList
  exact h1.trans (h2.trans h3)

end Step

end DrainLog

/-! ### The client -/

/-- A turn of the client's drain loop that pops an item. -/
structure ClientTurn where
  before : Client
  nowNs : UInt64
  item : MpmcItem
  after : Client

namespace ClientTurn

/-- The item has been pushed into the window. -/
def Pushed (t : ClientTurn) : Prop :=
  ∃ seq, t.before.sendWin.push t.item.mode t.item.data t.item.len.toNat t.nowNs =
    .ok (t.after.sendWin, seq)

/-- The item was the first of the queue. -/
def InOrder (t : ClientTurn) : Prop :=
  t.before.sendQueue.contents = t.item :: t.after.sendQueue.contents

end ClientTurn

/-- The turn of the drain loop that an event is, if it pops an item. -/
def ClientProc.drainTurn (p : ClientProc) (e : ClientEvent) (after : Client) : Option ClientTurn :=
  match e, p.pc with
  | .drain nowNs _, .drain workerState =>
    if workerState = .connected ∧ p.client.sendWin.canSend = true then
      p.client.sendQueue.tryPop.1.map fun item => ⟨p.client, nowNs, item, after⟩
    else none
  | _, _ => none

/-- A client with the turns of its drain loop since some state. -/
structure ClientLog where
  proc : ClientProc
  turns : List ClientTurn

namespace ClientLog

/-- One event, if it is enabled. -/
def exec (r : ClientLog) (e : ClientEvent) : Option ClientLog :=
  (r.proc.exec e).map fun (p, _) =>
    { proc := p, turns := r.turns ++ (r.proc.drainTurn e p.client).toList }

/-- A sequence of events; `none` if one of them is not enabled. -/
def run (r : ClientLog) : List ClientEvent → Option ClientLog
  | [] => some r
  | e :: es => (r.exec e).bind fun r => r.run es

/-- What holds of every log. -/
structure Inv (r : ClientLog) : Prop where
  sound : r.proc.client.Sound
  turns : ∀ t ∈ r.turns, t.Pushed ∧ t.InOrder

/-- A turn that pops pushes the first item of the queue. -/
theorem drainStep_turn {c : Client} (hc : c.Sound) (hcan : c.sendWin.canSend = true)
    {item : MpmcItem} (hpop : c.sendQueue.tryPop.1 = some item) (nowNs : UInt64) (sent : Bool) :
    ClientTurn.Pushed ⟨c, nowNs, item, (c.drainStep .connected nowNs sent).2.1⟩ ∧
      ClientTurn.InOrder ⟨c, nowNs, item, (c.drainStep .connected nowNs sent).2.1⟩ := by
  obtain ⟨l, hl, hshort⟩ := hc.queue
  obtain ⟨hhead, htail, -⟩ := hl.pop
  rw [MpmcQueue.tryPop] at hpop
  rw [hpop] at hhead
  obtain ⟨l, rfl⟩ : ∃ l', l = item :: l' := by
    cases l with
    | nil => exact absurd hhead (by simp)
    | cons x l => exact ⟨l, by rw [Option.some.inj hhead]⟩
  obtain ⟨⟨sendWin, seq⟩, hpush⟩ := SendWindow.exists_push_of_canSend
    (hshort item List.mem_cons_self) hcan item.mode item.data nowNs
  have hstep : (c.drainStep .connected nowNs sent).2.1.sendWin = sendWin ∧
      (c.drainStep .connected nowNs sent).2.1.sendQueue = c.sendQueue.popHeadLocked.2 := by
    have hpair : c.sendQueue.tryPop = (some item, c.sendQueue.popHeadLocked.2) := by
      rw [← hpop]; rfl
    simp only [Client.drainStep, hcan, hpair, hpush]
    exact ⟨rfl, rfl⟩
  refine ⟨⟨seq, ?_⟩, ?_⟩
  · rw [hstep.1]
    exact hpush
  · rw [ClientTurn.InOrder, hstep.2, hl.contents_eq, htail.contents_eq]
    rfl

theorem drainTurn_spec {p p' : ClientProc} {e : ClientEvent} {out : List Packet}
    (hp : p.client.Sound) (hmove : p.Moves e p' out) {t : ClientTurn}
    (ht : p.drainTurn e p'.client = some t) : t.Pushed ∧ t.InOrder := by
  cases hmove with
  | drain nowNs sent workerState hpc =>
    simp only [ClientProc.drainTurn, hpc] at ht
    split_ifs at ht with hguard
    obtain ⟨rfl, hcan⟩ := hguard
    obtain ⟨item, hpop, rfl⟩ := Option.map_eq_some_iff.1 ht
    exact drainStep_turn hp hcan hpop nowNs sent
  | send | recv | disconnectBegin | disconnectEnd | connect | turn | stop | packet | endPoll
  | endDrain | timers => exact absurd ht (by simp [ClientProc.drainTurn])

theorem Inv.step {r r' : ClientLog} (hr : r.Inv) {e : ClientEvent} (h : r.exec e = some r') :
    r'.Inv := by
  rw [exec, Option.map_eq_some_iff] at h
  obtain ⟨⟨p, out⟩, hexec, rfl⟩ := h
  have hmove := ClientProc.moves_of_exec hexec
  refine ⟨Client.Sound.moves hr.sound hmove, fun t ht => ?_⟩
  rcases List.mem_append.1 ht with ht | ht
  · exact hr.turns t ht
  · exact drainTurn_spec hr.sound hmove (Option.mem_toList.1 ht)

theorem Inv.run {es : List ClientEvent} :
    ∀ {r r' : ClientLog}, r.Inv → r.run es = some r' → r'.Inv := by
  induction es with
  | nil =>
    intro r r' hr hrun
    rw [ClientLog.run, Option.some.injEq] at hrun
    exact hrun ▸ hr
  | cons e es ih =>
    intro r r' hr hrun
    obtain ⟨r₁, hexec, hrun⟩ := Option.bind_eq_some_iff.1 hrun
    exact ih (hr.step hexec) hrun

end ClientLog

/-- **Draining loses and reorders nothing.** From every state of a server, in every run without a
`stop`: what is popped from `sendQueue` (and what was held before) is done with in that order, up to
the item in `pendingItem`; each item was pushed into the window of the connected session its
`clientId` designates at that moment, by a push that succeeded, or there is no such session; and
what is pushed for one slot is a subsequence of what was queued and what has entered the queue
since. From every state of a client, each item that the drain loop pops is the first of the queue,
and its push succeeds. -/
theorem drain_loses_nothing :
    (∀ (config : ServerConfig) (a : CreateAllocs) (s₀ : Server),
      Server.create config a = some s₀ → ∀ es₀ es : List ServerEvent, (∀ e ∈ es, e ≠ .stop) →
      let s := s₀.run es₀
      let r := (DrainLog.start s).run es
      r.server = s.run es ∧
        s.pendingItem.toList ++ r.popped =
          r.turns.map DrainTurn.item ++ r.server.pendingItem.toList ∧
        (∀ t ∈ r.turns, (∃ i, t.Pushed i) ∨ t.Discarded) ∧
        (r.popped ++ r.server.sendQueue.contents).Sublist (s.sendQueue.contents ++ r.enqueued) ∧
        ∀ i, (r.pushedFor i).Sublist
          (s.pendingItem.toList ++ (s.sendQueue.contents ++ r.enqueued))) ∧
    (∀ (config : ClientConfig) (a : CreateAllocs) (p : ClientProc),
      ClientProc.Reachable config a p → ∀ (es : List ClientEvent) (r : ClientLog),
      (ClientLog.mk p []).run es = some r → ∀ t ∈ r.turns, t.Pushed ∧ t.InOrder) := by
  refine ⟨fun config a s₀ hcreate es₀ es hes => ?_, fun config a p hp es r hrun => ?_⟩
  · have hbal := (DrainLog.balanced_start (s₀.run es₀)).run hes (Server.stocked_run hcreate es₀)
    exact ⟨DrainLog.run_server _ es, hbal.custody, hbal.turns, hbal.order, hbal.pushedFor_sublist⟩
  · have hinv : ClientLog.Inv ⟨p, []⟩ := ⟨Client.sound_of_reachable hp, by simp⟩
    exact (hinv.run hrun).turns

/-- A message to a slot that does not exist is queued behind one to the first client, and both are
drained. -/
def drainBoth : List ServerEvent := [.send 7 3 [8] 1, .drain 4 true, .drain 5 true]

/-- The first message is pushed and the second discarded; a client pushes both its messages. -/
theorem drain_loses_nothing_of_two :
    (∃ s₀, Server.create (Server.tableConfig 1) CreateAllocs.allOk = some s₀ ∧
      ∃ r, (DrainLog.start (s₀.run Server.sendToFirst)).run drainBoth = r ∧
        r.turns.map DrainTurn.item = [⟨0, 3, 1, [7]⟩, ⟨7, 3, 1, [8]⟩] ∧
        r.pushedFor 0 = [⟨0, 3, 1, [7]⟩] ∧ ∀ t ∈ r.turns, (∃ i, t.Pushed i) ∨ t.Discarded) ∧
    ∃ p r, ClientProc.Reachable Client.smallConfig CreateAllocs.allOk p ∧
      (ClientLog.mk p []).run [.drain 5 true, .drain 6 true] = some r ∧
      r.turns.map ClientTurn.item = [⟨0, 3, 1, [9]⟩, ⟨0, 3, 1, [9]⟩] ∧
      ∀ t ∈ r.turns, t.Pushed ∧ t.InOrder := by
  constructor
  · have hsome : (Server.create (Server.tableConfig 1) CreateAllocs.allOk).isSome = true := by
      decide +kernel
    have hval : (Server.create (Server.tableConfig 1) CreateAllocs.allOk).map (fun s =>
        (((DrainLog.start (s.run Server.sendToFirst)).run drainBoth).turns.map DrainTurn.item,
          ((DrainLog.start (s.run Server.sendToFirst)).run drainBoth).pushedFor 0)) =
        some ([⟨0, 3, 1, [7]⟩, ⟨7, 3, 1, [8]⟩], [⟨0, 3, 1, [7]⟩]) := by
      decide +kernel
    obtain ⟨s₀, hs₀⟩ := Option.isSome_iff_exists.1 hsome
    rw [hs₀, Option.map_some, Option.some.injEq, Prod.mk.injEq] at hval
    have h := drain_loses_nothing.1 _ _ s₀ hs₀ Server.sendToFirst drainBoth (by simp [drainBoth])
    exact ⟨s₀, hs₀, _, rfl, hval.1, hval.2, h.2.2.1⟩
  · have hval : ((Client.after (Client.sendMany 2)).bind fun p =>
        (ClientLog.mk p []).run [.drain 5 true, .drain 6 true]).map
          (fun r => r.turns.map ClientTurn.item) =
        some [⟨0, 3, 1, [9]⟩, ⟨0, 3, 1, [9]⟩] := by
      decide +kernel
    obtain ⟨r, hr, hitems⟩ := Option.map_eq_some_iff.1 hval
    obtain ⟨p, hp, hrun⟩ := Option.bind_eq_some_iff.1 hr
    have hreach := Client.reachable_after hp
    exact ⟨p, r, hreach, hrun, hitems, drain_loses_nothing.2 _ _ p hreach _ r hrun⟩

end Rel4u
